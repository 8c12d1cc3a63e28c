import Viable.Chance.KeyStream
import Viable.CommandLine.Command
import Viable.CommandLine.Log
import Viable.Grammar.Reachable
import Viable.Lua.Grammar
import Viable.Sampling

/-! What an invocation prints and logs, and whether it succeeds. -/

namespace Viable.CommandLine

inductive ReadError where
  | notFound
  | isDirectory
  | notText
  | other (description : String)
deriving DecidableEq

def ReadError.message : ReadError → String
  | notFound => "No such file or directory (os error 2)"
  | isDirectory => "Is a directory (os error 21)"
  | notText => "stream did not contain valid UTF-8"
  | other description => description

/-- The text of a file, which has to be in UTF-8. -/
def ReadError.decode (bytes : ByteArray) : Except ReadError String :=
  match String.fromUTF8? bytes with
  | some text => .ok text
  | none => .error .notText

/-- The outcome of a run. The log comes with all its lines, whatever level is shown. -/
structure Report where
  succeeded : Bool
  output : List String := []
  errors : List String := []
  log : List LogLine := []

namespace Report

def failure (error : String) : Report := { succeeded := false, errors := [error] }

/-- Puts a line in front of the log. -/
def logged (report : Report) (line : LogLine) : Report := { report with log := line :: report.log }

end Report

def readInput (read : String → Except ReadError String) : Input → Except ReadError String
  | .file path => read path
  | .text source => .ok source

def runTokens (source : String) : Report :=
  let tokens := Lua.lexicon.tokenize source
  { succeeded := true, output := tokens.map (·.display), log := [.tokenized source tokens] }

/-- The source up to the end of a token, and below it the tokens that are legal then, or the error. -/
def stepLines {grammar : Grammar} (source : String) (step : Step grammar) : List String :=
  let below := match step.outcome.answer with
    | .ok legal => legal.display
    | .error refusal => step.location.report refusal.message
  [String.ofList (Text.takeBytes step.token.stop source.toList), "    " ++ below]

def verdict {grammar : Grammar} (transcript : Transcript grammar) : String :=
  let consumed := transcript.final.consumed
  if transcript.isAccepting then s!"accepted after {consumed} tokens, {transcript.refusals} refused"
  else if transcript.halted then s!"halted after {consumed} tokens"
  else s!"incomplete after {consumed} tokens, {transcript.refusals} refused"

def runDrive (grammar : Grammar) (start : Name) (source : String) (policy : FailurePolicy)
    (recovery : Bool) : Report :=
  match Session.ofStart grammar start with
  | .error missing => .failure (missing.location.report missing.message)
  | .ok session =>
    let tokens := Lua.lexicon.tokenize source
    let transcript := session.feed (if recovery then some Lua.separator else none) policy tokens
    { succeeded := transcript.refusals = 0 && transcript.isAccepting
      output := ["    " ++ session.legal.display] ++
        transcript.steps.flatMap (stepLines source) ++ [verdict transcript]
      log := .tokenized source tokens :: LogLine.ofSteps policy session transcript.steps }

def runGrammar (grammar : Grammar) (start : Name) : Report where
  succeeded := true
  output := grammar.productions.toList.map (·.display)
  log := .grammarSummary grammar :: (grammar.unreachableFrom start).map .unreachable

/-- Sentences until their number is reached or one of them fails. -/
def runSample (grammar : Grammar) (start : Name) (depth : Nat) : Nat → Chance.KeyStream → Report
  | 0, _ => { succeeded := true }
  | amount + 1, source =>
    match (grammar.sample start depth).run source with
    | (.ok tree, rest) =>
      let report := runSample grammar start depth amount rest
      { report with output := " ".intercalate tree.tokens :: report.output }
    | (.error error, _) => .failure (error.location.report error.message)

/-- Runs a command on the Lua grammar. `entropy` stands in for a seed that is not given. -/
def Invocation.run (invocation : Invocation) (read : String → Except ReadError String) (entropy : Nat) :
    Report :=
  let grammar := Lua.grammar
  let start := (invocation.start.map Name.given).getD Lua.start
  let report := match invocation.command with
    | .tokens input =>
      match readInput read input with
      | .ok source => runTokens source
      | .error error => .failure s!"Could not read input: {error.message}"
    | .drive input policy recovery =>
      match readInput read input with
      | .ok source => runDrive grammar start source policy recovery
      | .error error => .failure s!"Could not read input: {error.message}"
    | .grammar => runGrammar grammar start
    | .sample amount seed depth =>
      runSample grammar start depth amount (.ofSeed (seed.getD entropy).toUInt64)
  report.logged (.grammarBuilt grammar)

/-- The least level shown, if none is asked for. -/
def Invocation.threshold (invocation : Invocation) : Level :=
  if invocation.verbose then .debug else .info

end Viable.CommandLine
