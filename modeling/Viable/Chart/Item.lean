import Viable.Grammar.Basic

/-! Dotted productions: how far a production has been matched, and since when. -/

namespace Viable

/-- The number of ways to put a dot into a production: before each symbol, or at the end. -/
def Grammar.dottedCount (grammar : Grammar) : Nat :=
  grammar.productions.toList.foldr (fun production count => production.body.length + 1 + count) 0

/-- The first `dot` symbols of the body have been matched by the tokens since `origin`. -/
structure Item where
  production : Nat
  dot : Nat
  origin : Nat
deriving DecidableEq, Hashable

namespace Item

/-- One more symbol of the body has been matched. -/
def advance (item : Item) : Item := { item with dot := item.dot + 1 }

/-- The first symbol of the body that has not been matched yet. -/
def next? (grammar : Grammar) (item : Item) : Option Symbol :=
  (grammar.productions[item.production]?).bind (·.body[item.dot]?)

/-- What the item stands for when all of its body has been matched. -/
def head? (grammar : Grammar) (item : Item) : Option Name :=
  (grammar.productions[item.production]?).map (·.head)

/-- The item behind the next symbol, if that symbol is the one given. -/
def over? (grammar : Grammar) (symbol : Symbol) (item : Item) : Option Item :=
  if item.next? grammar = some symbol then some item.advance else none

end Item

end Viable
