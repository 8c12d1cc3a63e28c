import Viable.Recovery

/-! What the command line asks for. -/

namespace Viable.CommandLine

/-- Where the source text comes from. -/
inductive Input where
  | file (path : String)
  | text (source : String)

inductive Command where
  | tokens (input : Input)
  | drive (input : Input) (policy : FailurePolicy) (recovery : Bool)
  | grammar
  | sample (amount : Nat) (seed : Option Nat) (depth : Nat)

/-- The file that the command reads. -/
def Command.path? : Command → Option String
  | tokens (.file path) => some path
  | drive (.file path) _ _ => some path
  | _ => none

/-- A command, and the settings that every command has. -/
structure Invocation where
  command : Command
  start : Option String
  verbose : Bool

/-- Why the arguments do not make an invocation. -/
inductive ArgumentError where
  | helpRequested
  | versionRequested
  /-- Nothing was asked for, which shows the help too. -/
  | nothingGiven
  | missingCommand
  | unknownCommand
  | unknownArgument
  /-- An option twice, or two that exclude each other. -/
  | conflict
  /-- A value is missing, or not among those that the option has. -/
  | invalidValue
  | malformedNumber
  /-- A value for an option that has none. -/
  | unexpectedValue
  | missingInput
deriving DecidableEq

def ArgumentError.message : ArgumentError → String
  | helpRequested | nothingGiven =>
    "usage: prefix-lua [-s SYMBOL] [-v] (tokens | drive | grammar | sample) [options]\n\n" ++
    "  tokens   (FILE | -e SOURCE)                        print the tokens with their byte offsets\n" ++
    "  drive    (FILE | -e SOURCE) [--on-error halt|skip] [--no-recovery]\n" ++
    "                                                     print the legal continuations\n" ++
    "  grammar                                            print the productions\n" ++
    "  sample   [-n AMOUNT] [--seed N] [--depth N]        print random sentences"
  | versionRequested => "prefix-lua 0.1.0"
  | missingCommand => "error: a command is required"
  | unknownCommand => "error: unrecognized command"
  | unknownArgument => "error: unexpected argument"
  | conflict => "error: arguments that cannot be used together"
  | invalidValue => "error: a missing or invalid value"
  | malformedNumber => "error: a value that is not a number in range"
  | unexpectedValue => "error: a value for an option without values"
  | missingInput => "error: a file or --eval is required"

/-- Whether the message is what was asked for. -/
def ArgumentError.isAnswer : ArgumentError → Bool
  | helpRequested | versionRequested => true
  | _ => false

end Viable.CommandLine
