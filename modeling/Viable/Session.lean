import Viable.Chart.Column
import Viable.Location

/-! Recognition sessions: whether a list of tokens can still grow into a sentence, one token at a time. -/

namespace Viable

/-- A start symbol that heads no production. -/
structure MissingStart where
  name : Name
deriving DecidableEq

namespace MissingStart

def location (_ : MissingStart) : Location := .grammar

def message (missing : MissingStart) : String :=
  s!"Start symbol `{missing.name.display}` has no productions"

end MissingStart

/-- A refused token, the number of tokens consumed before it, and what would have been accepted. -/
structure Rejection where
  token : String
  position : Nat
  expected : TokenSet
deriving DecidableEq

def Rejection.message (rejection : Rejection) : String :=
  let expected := if rejection.expected.toList.isEmpty then "nothing" else rejection.expected.display
  s!"`{rejection.token}` cannot follow the first {rejection.position} tokens, expected one of {expected}"

/-- The columns before each of the consumed tokens and the column after the last. -/
structure Session (grammar : Grammar) where
  start : Name
  earlier : Array Column
  current : Column

namespace Session

variable {grammar : Grammar}

/-- The session before any token. -/
def ofStart (grammar : Grammar) (start : Name) : Except MissingStart (Session grammar) :=
  if grammar.contains start then
    .ok ⟨start, #[], Column.close grammar #[] ((grammar.alternatives start).map (⟨·, 0, 0⟩))⟩
  else
    .error ⟨start⟩

def consumed (session : Session grammar) : Nat := session.earlier.size

/-- The tokens that can follow the consumed ones. -/
def legal (session : Session grammar) : TokenSet := session.current.expected grammar

/-- Whether the consumed tokens are a sentence. -/
def isAccepting (session : Session grammar) : Bool :=
  session.current.any fun item =>
    item.origin = 0 && (item.next? grammar).isNone && item.head? grammar = some session.start

/-- Consumes a token if it is legal. -/
def advance (session : Session grammar) (token : String) : Except Rejection (Session grammar) :=
  match session.current.filterMap (·.over? grammar (.terminal token)) with
  | [] => .error ⟨token, session.consumed, session.legal⟩
  | scanned =>
    let earlier := session.earlier.push session.current
    .ok { session with earlier, current := Column.close grammar earlier scanned }

/-- A checkpoint is a number of consumed tokens. -/
abbrev Checkpoint := Nat

def checkpoint (session : Session grammar) : Checkpoint := session.consumed

/-- Forgets the tokens behind a checkpoint. A checkpoint that lies ahead changes nothing. -/
def rewind (session : Session grammar) (checkpoint : Checkpoint) : Session grammar :=
  match session.earlier[checkpoint]? with
  | some column => { session with earlier := session.earlier.take checkpoint, current := column }
  | none => session

end Session

end Viable
