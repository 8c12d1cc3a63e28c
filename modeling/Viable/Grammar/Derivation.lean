import Viable.Grammar.Symbol

/-! Derivation trees over a list of productions, and the token lists that they yield. -/

namespace Viable

/-- A derivation grows a body into tokens: one tree for each nonterminal in it, side by side. -/
inductive Derivation (productions : List Production) : Body → Type where
  | nil : Derivation productions []
  | terminal (text : String) {body : Body} (rest : Derivation productions body) :
      Derivation productions (.terminal text :: body)
  | node (name : Name) (production : Production) (member : production ∈ productions)
      (heads : production.head = name) (children : Derivation productions production.body)
      {body : Body} (rest : Derivation productions body) :
      Derivation productions (.nonterminal name :: body)

namespace Derivation

variable {productions : List Production}

/-- The tokens at the leaves, from left to right. -/
def tokens {body : Body} : Derivation productions body → List String
  | nil => []
  | terminal text rest => text :: rest.tokens
  | node _ _ _ _ children rest => children.tokens ++ rest.tokens

/-- The number of nonterminals on the longest path downward. -/
def height {body : Body} : Derivation productions body → Nat
  | nil => 0
  | terminal _ rest => rest.height
  | node _ _ _ _ children rest => max (children.height + 1) rest.height

/-- Two derivations side by side derive the two bodies in a row. -/
def append {first second : Body} :
    Derivation productions first → Derivation productions second → Derivation productions (first ++ second)
  | nil, right => right
  | terminal text rest, right => .terminal text (rest.append right)
  | node name production member heads children rest, right =>
      .node name production member heads children (rest.append right)

end Derivation

/-- A body derives a token list when some derivation of it has those tokens at its leaves. -/
def Derives (productions : List Production) (body : Body) (tokens : List String) : Prop :=
  ∃ derivation : Derivation productions body, derivation.tokens = tokens

end Viable
