import Viable.CommandLine.Command

/-! Reading arguments: options before and after a command, in long and short form. -/

namespace Viable.CommandLine

inductive CommandName where
  | tokens
  | drive
  | grammar
  | sample
deriving DecidableEq

def CommandName.ofWord? : String → Option CommandName
  | "tokens" => some .tokens
  | "drive" => some .drive
  | "grammar" => some .grammar
  | "sample" => some .sample
  | _ => none

/-- The options, and the file, which is given without one. -/
inductive Key where
  | start
  | verbose
  | help
  | version
  | eval
  | file
  | onError
  | noRecovery
  | amount
  | seed
  | depth
deriving DecidableEq

namespace Key

def long : Key → String
  | start => "start"
  | verbose => "verbose"
  | help => "help"
  | version => "version"
  | eval => "eval"
  | file => "file"
  | onError => "on-error"
  | noRecovery => "no-recovery"
  | amount => "amount"
  | seed => "seed"
  | depth => "depth"

def short? : Key → Option Char
  | start => some 's'
  | verbose => some 'v'
  | help => some 'h'
  | version => some 'V'
  | eval => some 'e'
  | amount => some 'n'
  | _ => none

def takesValue : Key → Bool
  | verbose | help | version | noRecovery => false
  | _ => true

end Key

/-- The arguments before the command, or those behind it. -/
inductive Scope where
  | outer
  | command (name : CommandName)
deriving DecidableEq

namespace Scope

def keys : Scope → List Key
  | outer => [.start, .verbose, .help, .version]
  | command .tokens => [.start, .verbose, .help, .eval]
  | command .drive => [.start, .verbose, .help, .eval, .onError, .noRecovery]
  | command .grammar => [.start, .verbose, .help]
  | command .sample => [.start, .verbose, .help, .amount, .seed, .depth]

def takesFile : Scope → Bool
  | command .tokens | command .drive => true
  | _ => false

end Scope

/-- The number that decimal digits denote, if there are digits and nothing else. -/
def digits? (text : List Char) : Option Nat :=
  if text.isEmpty || !text.all Char.isDigit then none
  else some (text.foldl (fun value digit => value * 10 + (digit.toNat - '0'.toNat)) 0)

/-- A number below `bound`; a plus sign may precede it. -/
def natural? (bound : Nat) (text : String) : Option Nat :=
  let value := match text.toList with
    | '+' :: digits => digits? digits
    | digits => digits? digits
  value.filter (· < bound)

/-- A 32-bit amount, read as a signed number: a minus sign may precede zero. -/
def amount? (text : String) : Option Nat :=
  match text.toList with
  | '-' :: digits => (digits? digits).filter (· = 0)
  | _ => natural? (1 <<< 32) text

def policy? : String → Option FailurePolicy
  | "halt" => some .halt
  | "skip" => some .skip
  | _ => none

/-- The options given so far. -/
structure Settings where
  start : Option String := none
  verbose : Bool := false
  eval : Option String := none
  file : Option String := none
  onError : Option FailurePolicy := none
  noRecovery : Bool := false
  amount : Option Nat := none
  seed : Option Nat := none
  depth : Option Nat := none

namespace Settings

/-- Sets what was not set before, to the value if that could be read. -/
def once {α : Type} (old new : Option α) (error : ArgumentError) : Except ArgumentError (Option α) :=
  if old.isSome then .error .conflict
  else if new.isSome then .ok new
  else .error error

def assign (settings : Settings) (key : Key) (value : String) : Except ArgumentError Settings :=
  match key with
  | .start => do return { settings with start := ← once settings.start (some value) .invalidValue }
  | .eval => do return { settings with eval := ← once settings.eval (some value) .invalidValue }
  | .file => do
    let path := if value.isEmpty then none else some value
    return { settings with file := ← once settings.file path .invalidValue }
  | .onError => do return { settings with onError := ← once settings.onError (policy? value) .invalidValue }
  | .amount => do return { settings with amount := ← once settings.amount (amount? value) .malformedNumber }
  | .seed => do
    return { settings with seed := ← once settings.seed (natural? (1 <<< 64) value) .malformedNumber }
  | .depth => do
    return { settings with depth := ← once settings.depth (natural? (1 <<< 64) value) .malformedNumber }
  | .verbose | .help | .version | .noRecovery => .error .unexpectedValue

def raise (settings : Settings) (key : Key) : Except ArgumentError Settings :=
  match key with
  | .help => .error .helpRequested
  | .version => .error .versionRequested
  | .verbose => if settings.verbose then .error .conflict else .ok { settings with verbose := true }
  | .noRecovery => if settings.noRecovery then .error .conflict else .ok { settings with noRecovery := true }
  | _ => .error .invalidValue

/-- The source is a file or a text, not both and not neither. -/
def input (settings : Settings) : Except ArgumentError Input :=
  match settings.file, settings.eval with
  | some _, some _ => .error .conflict
  | some path, none => .ok (.file path)
  | none, some source => .ok (.text source)
  | none, none => .error .missingInput

def command (settings : Settings) : CommandName → Except ArgumentError Command
  | .tokens => return .tokens (← settings.input)
  | .drive => return .drive (← settings.input) (settings.onError.getD .skip) (!settings.noRecovery)
  | .grammar => .ok .grammar
  | .sample => .ok (.sample (settings.amount.getD 1) settings.seed (settings.depth.getD 6))

end Settings

/-- An option or file that was met last is pending: it is settled when the next one is met. -/
structure Progress where
  settings : Settings := {}
  pending : Option (Key × Option String) := none
  /-- Behind `--` no word is an option. -/
  trailing : Bool := false

namespace Progress

/-- Whether the next word is the value of the option before it. -/
def isAwaiting (progress : Progress) : Bool :=
  match progress.pending with
  | some (_, none) => true
  | _ => false

def settle (progress : Progress) : Except ArgumentError Progress :=
  match progress.pending with
  | none => .ok progress
  | some (_, none) => .error .invalidValue
  | some (key, some value) => do
    return { progress with settings := ← progress.settings.assign key value, pending := none }

/-- Meets an option that has a value, here or in the next word. -/
def meet (progress : Progress) (key : Key) (value : Option String) : Except ArgumentError Progress := do
  let progress ← progress.settle
  match value with
  | some value => return { progress with settings := ← progress.settings.assign key value }
  | none => return { progress with pending := some (key, none) }

def raise (progress : Progress) (key : Key) : Except ArgumentError Progress := do
  let progress ← progress.settle
  return { progress with settings := ← progress.settings.raise key }

/-- A word that is no option and no value of one: the file, or one word too many. -/
def position (scope : Scope) (progress : Progress) (word : String) : Except ArgumentError Progress :=
  let fileGiven := progress.settings.file.isSome || progress.pending.any (·.1 = .file)
  if scope.takesFile && !fileGiven then do
    return { ← progress.settle with pending := some (.file, some word) }
  else
    match scope with
    | .command _ => .error .unknownArgument
    | .outer =>
      if progress.trailing && ((CommandName.ofWord? word).isSome || word = "help") then .error .unknownArgument
      else .error .unknownCommand

/-- A word behind two hyphens: the name of an option, and perhaps an equals sign and a value. -/
def long (scope : Scope) (progress : Progress) (word : List Char) : Except ArgumentError Progress :=
  let name := String.ofList (word.takeWhile (· ≠ '='))
  let value := match word.dropWhile (· ≠ '=') with
    | [] => none
    | _ :: value => some (String.ofList value)
  match scope.keys.find? (·.long = name) with
  | none => .error .unknownArgument
  | some key =>
    if key.takesValue then progress.meet key value
    else if value.isSome then .error .unexpectedValue
    else progress.raise key

/-- Letters behind one hyphen: options without values, and then perhaps one with a value, which may
follow at once or behind an equals sign. -/
def shorts (scope : Scope) (progress : Progress) : List Char → Except ArgumentError Progress
  | [] => .ok progress
  | letter :: rest =>
    match scope.keys.find? (·.short? = some letter) with
    | none => .error .unknownArgument
    | some key =>
      if key.takesValue then
        progress.meet key <| match rest with
          | [] => none
          | '=' :: value => some (String.ofList value)
          | value => some (String.ofList value)
      else do
        let progress ← progress.raise key
        progress.shorts scope rest

/-- One word that is neither a command nor behind `--`. -/
def word (scope : Scope) (progress : Progress) (word : String) : Except ArgumentError Progress :=
  match word.toList with
  | ['-', '-'] => .ok { progress with trailing := true }
  | '-' :: '-' :: rest => progress.long scope rest
  | '-' :: letter :: rest => progress.shorts scope (letter :: rest)
  | _ =>
    match progress.pending with
    | some (key, none) => .ok { progress with pending := some (key, some word) }
    | _ => progress.position scope word

end Progress

/-- What the words behind `help` ask for: the help of one command, or of all. -/
def helpOn : List String → ArgumentError
  | [] => .helpRequested
  | [word] => if (CommandName.ofWord? word).isSome || word = "help" then .helpRequested else .unknownCommand
  | _ => .unknownCommand

/-- Reads the words before a command, and finds the command and the words behind it. -/
def readOuter (progress : Progress) :
    List String → Except ArgumentError (Progress × Option (CommandName × List String))
  | [] => .ok (progress, none)
  | word :: rest =>
    if progress.trailing then do readOuter (← progress.position .outer word) rest
    else if progress.isAwaiting then do readOuter (← progress.word .outer word) rest
    else if word = "help" then .error (helpOn rest)
    else
      match CommandName.ofWord? word with
      | some name => .ok (progress, some (name, rest))
      | none => do readOuter (← progress.word .outer word) rest

/-- Reads the words behind a command. -/
def readInner (scope : Scope) (progress : Progress) : List String → Except ArgumentError Settings
  | [] => do return (← progress.settle).settings
  | word :: rest => do
    if progress.trailing then readInner scope (← progress.position scope word) rest
    else readInner scope (← progress.word scope word) rest

/-- Settings behind the command win over settings before it. -/
def Invocation.ofWords (words : List String) : Except ArgumentError Invocation := do
  let (outer, call) ← readOuter {} words
  match call with
  | none =>
    let outer := (← outer.settle).settings
    if outer.start.isNone && !outer.verbose then .error .nothingGiven else .error .missingCommand
  | some (name, rest) =>
    let inner ← readInner (.command name) {} rest
    let command ← inner.command name
    let outer := (← outer.settle).settings
    return ⟨command, inner.start <|> outer.start, inner.verbose || outer.verbose⟩

end Viable.CommandLine
