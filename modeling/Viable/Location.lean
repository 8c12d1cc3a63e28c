import Viable.Grammar.Symbol

/-! Places that an error can be about, and the form in which errors are reported. -/

namespace Viable

inductive Location where
  /-- A production by its head and its rank among the productions of that head, from zero. -/
  | production (head : Name) (rank : Nat)
  /-- A token by its number in the input and the bytes of the source that it covers. -/
  | token (index start stop : Nat)
  | grammar

namespace Location

def display : Location → String
  | production head rank => s!"{head.display}/{rank}"
  | token index start stop => s!"token {index} @ {start}..{stop}"
  | grammar => "grammar"

/-- An error report: the place in red between brackets, then what is wrong. -/
def report (location : Location) (message : String) : String :=
  s!"\x1b[31;49;1m[{location.display}]\x1b[39;49;1m  {message}\x1b[0m"

end Location

end Viable
