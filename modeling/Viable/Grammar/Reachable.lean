import Viable.Grammar.Basic
import Viable.Saturation

/-! The nonterminals that the derivations from a name can mention. -/

namespace Viable.Grammar

/-- The nonterminals that the productions of `name` mention. -/
def mentions (grammar : Grammar) (name : Name) : List Name :=
  (grammar.alternatives name).flatMap fun position =>
    ((grammar.productions[position]?).map (·.references)).getD []

/-- The names found from `start` are `start` itself and heads. -/
def reachableFrom (grammar : Grammar) (start : Name) : List Name :=
  saturate grammar.mentions (grammar.rules.length + 1) [start]

/-- The nonterminals that no derivation from `start` mentions, in order of first appearance. -/
def unreachableFrom (grammar : Grammar) (start : Name) : List Name :=
  let reachable := grammar.reachableFrom start
  grammar.nonterminals.filter (· ∉ reachable)

end Viable.Grammar
