import Viable.Recovery

/-! The log of a run. -/

namespace Viable.CommandLine

inductive Level where
  | error
  | warn
  | info
  | debug
  | trace
deriving DecidableEq

namespace Level

def label : Level → String
  | error => "ERROR"
  | warn => "WARN"
  | info => "INFO"
  | debug => "DEBUG"
  | trace => "TRACE"

def ofWord? : String → Option Level
  | "error" => some .error
  | "warn" => some .warn
  | "info" => some .info
  | "debug" => some .debug
  | "trace" => some .trace
  | _ => none

def detail : Level → Nat
  | error => 0
  | warn => 1
  | info => 2
  | debug => 3
  | trace => 4

/-- Whether a log kept down to `threshold` shows this level; a log without threshold shows none. -/
def isShown (level : Level) (threshold : Option Level) : Bool :=
  threshold.any fun threshold => level.detail ≤ threshold.detail

end Level

/-- What happened, in which part of the program, and in the course of what. -/
structure LogLine where
  level : Level
  activity : Option String
  target : String
  message : String

namespace LogLine

/-- Activities are shown where information is. -/
def render? (line : LogLine) (threshold : Option Level) : Option String :=
  if line.level.isShown threshold then
    let activity := match line.activity with
      | some activity => if Level.info.isShown threshold then s!"{activity}: " else ""
      | none => ""
    some s!"{line.level.label} {activity}{line.target}: {line.message}"
  else none

def grammarBuilt (grammar : Grammar) : LogLine where
  level := .debug
  activity := none
  target := "prefix_lua::grammar"
  message :=
    s!"grammar built productions={grammar.productions.size} nonterminals={grammar.nonterminals.length}"

def grammarSummary (grammar : Grammar) : LogLine where
  level := .info
  activity := none
  target := "prefix_lua"
  message := s!"grammar summary productions={grammar.productions.size} " ++
    s!"nonterminals={grammar.nonterminals.length} terminals={grammar.terminals.length}"

def unreachable (name : Name) : LogLine where
  level := .warn
  activity := none
  target := "prefix_lua"
  message := s!"nonterminal is unreachable from the start symbol name={name.display}"

def tokenized (source : String) (tokens : List Token) : LogLine where
  level := .debug
  activity := s!"tokenize\x7bsource_len={source.utf8ByteSize}\x7d"
  target := "prefix_lua::tokenizer"
  message := s!"tokenized source tokens={tokens.length}"

/-- The activity of feeding under a policy. -/
def feeding : FailurePolicy → String
  | .halt => "drive\x7bpolicy=Halt\x7d"
  | .skip => "drive\x7bpolicy=Skip\x7d"

def columnBuilt (policy : FailurePolicy) (position : Nat) (column : Column) (token : String) : LogLine where
  level := .trace
  activity := feeding policy
  target := "prefix_lua::recognizer"
  message := s!"earley set built position={position} items={column.length} token={Text.quoted token}"

def separatorInserted (policy : FailurePolicy) (token separator : String) : LogLine where
  level := .debug
  activity := feeding policy
  target := "prefix_lua::driver"
  message := s!"inserted recovery token token={Text.quoted token} recovery_token={separator}"

def tokenDropped (policy : FailurePolicy) (token : String) (location : Location) : LogLine where
  level := .warn
  activity := feeding policy
  target := "prefix_lua::driver"
  message := s!"irrecoverable token token={token} error.location={location.display}"

variable {grammar : Grammar}

/-- The column behind a token, if the token is accepted. -/
def advanced (policy : FailurePolicy) (session : Session grammar) (token : String) : List LogLine :=
  match session.advance token with
  | .ok after => [columnBuilt policy after.consumed after.current token]
  | .error _ => []

/-- One line for each column that was built, also for one that was given up again, and then a line
for a repaired or a dropped token. -/
def ofStep (policy : FailurePolicy) (before : Session grammar) (step : Step grammar) : List LogLine :=
  let token := step.token.text
  match step.outcome with
  | .accepted after => [columnBuilt policy after.consumed after.current token]
  | .repaired separator after =>
    advanced policy before separator ++
      [columnBuilt policy after.consumed after.current token, separatorInserted policy token separator]
  | .refused refusal _ =>
    let tried := match refusal with
      | .retryRejected _ separator _ => advanced policy before separator
      | _ => []
    tried ++ [tokenDropped policy token step.location]

def ofSteps (policy : FailurePolicy) : Session grammar → List (Step grammar) → List LogLine
  | _, [] => []
  | before, step :: rest =>
    ofStep policy before step ++ ofSteps policy step.outcome.session rest

end LogLine

end Viable.CommandLine
