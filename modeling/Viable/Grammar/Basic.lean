import Viable.Grammar.Height

/-! Grammars: production lists in which every nonterminal heads a production. -/

namespace Viable

/-- The heads of a production list, in order of first appearance. -/
def headsOf (productions : List Production) : List Name := (productions.map (·.head)).eraseDups

/-- The positions of the productions with one head, in increasing order. -/
def positionsOf (productions : List Production) (name : Name) : List Nat :=
  productions.zipIdx.filterMap fun (production, position) =>
    if production.head = name then some position else none

def rulesOf (productions : List Production) : List (Name × List Nat) :=
  (headsOf productions).map fun name => (name, positionsOf productions name)

/-- A name derives the empty token list when it has a finite derivation by productions without terminals. -/
def nullablesOf (productions : List Production) : List Name :=
  (heightsOf (productions.filter (·.literals.isEmpty))).map (·.1)

/-- No body mentions a nonterminal outside of `names`. -/
def MentionsOnly (names : List Name) (productions : List Production) : Prop :=
  ∀ production ∈ productions, ∀ name ∈ production.references, name ∈ names

instance (names : List Name) (productions : List Production) : Decidable (MentionsOnly names productions) :=
  inferInstanceAs (Decidable (∀ production ∈ productions, ∀ name ∈ production.references, name ∈ names))

/-- Every nonterminal that a body mentions heads a production. -/
abbrev Complete (productions : List Production) : Prop := MentionsOnly (headsOf productions) productions

/-- A complete production list with its look-up tables. A production is known by its position. -/
structure Grammar where
  productions : Array Production
  rules : List (Name × List Nat)
  nullables : List Name
  heights : Heights
  rules_eq : rules = rulesOf productions.toList
  nullables_eq : nullables = nullablesOf productions.toList
  heights_eq : heights = heightsOf productions.toList
  complete : Complete productions.toList

namespace Grammar

def ofComplete (productions : List Production) (complete : Complete productions) : Grammar where
  productions := productions.toArray
  rules := rulesOf productions
  nullables := nullablesOf productions
  heights := heightsOf productions
  rules_eq := rfl
  nullables_eq := rfl
  heights_eq := rfl
  complete := complete

/-- The nonterminals, in order of first appearance as heads. -/
def nonterminals (grammar : Grammar) : List Name := grammar.rules.map (·.1)

/-- The terminals, in order of first appearance through the bodies. -/
def terminals (grammar : Grammar) : List String :=
  (grammar.productions.toList.flatMap (·.literals)).eraseDups

/-- The positions of the productions that `name` heads; none if it heads none. -/
def alternatives (grammar : Grammar) (name : Name) : List Nat := (grammar.rules.lookup name).getD []

def contains (grammar : Grammar) (name : Name) : Bool := (grammar.rules.lookup name).isSome

/-- Whether `name` derives the empty token list. -/
def isNullable (grammar : Grammar) (name : Name) : Bool := grammar.nullables.contains name

/-- One production to a line. -/
def display (grammar : Grammar) : String :=
  String.join (grammar.productions.toList.map fun production => production.display ++ "\n")

end Grammar

end Viable
