import Viable.Grammar.Basic
import Viable.Location

/-! What is wrong with a production list that is no grammar. -/

namespace Viable

/-- A nonterminal without productions, mentioned by the production of that head and rank. -/
structure DanglingReference where
  head : Name
  rank : Nat
  name : Name
deriving DecidableEq

namespace DanglingReference

def location (reference : DanglingReference) : Location := .production reference.head reference.rank

def message (reference : DanglingReference) : String :=
  s!"No production for nonterminal `{reference.name.display}`"

end DanglingReference

/-- Every dangling reference once for each time it is written: head by head in order of first
appearance, then by rank, then by place in the body. -/
def danglingReferences (productions : List Production) : List DanglingReference :=
  let heads := headsOf productions
  heads.flatMap fun head =>
    (productions.filter (·.head = head)).zipIdx.flatMap fun (production, rank) =>
      (production.references.filter (· ∉ heads)).map fun name => ⟨head, rank, name⟩

def Grammar.ofProductions (productions : List Production) : Except (List DanglingReference) Grammar :=
  if complete : Complete productions then
    .ok (.ofComplete productions complete)
  else
    .error (danglingReferences productions)

end Viable
