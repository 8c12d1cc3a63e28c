import Viable.Grammar.Symbol

/-! The least heights of the finite derivations of each name, found one height after the other. -/

namespace Viable

/-- Names with their least heights. A name that is missing has no height so far. -/
abbrev Heights := List (Name × Nat)

/-- The greatest height among some names, once every one of them has a height. -/
def Heights.tallest? (known : Heights) : List Name → Option Nat
  | [] => some 0
  | name :: others =>
    match known.lookup name, tallest? known others with
    | some height, some tallest => some (max height tallest)
    | _, _ => none

/-- A production stands one higher than the tallest nonterminal of its body. -/
def Production.height? (production : Production) (known : Heights) : Option Nat :=
  (known.tallest? production.references).map (· + 1)

/-- The heads that are still without a height although some production would give them one. -/
def Heights.ripe (productions : List Production) (known : Heights) : List Name :=
  ((productions.filter fun production =>
    (known.lookup production.head).isNone && (production.height? known).isSome).map (·.head)).eraseDups

/-- What ripens in one round has the height of that round, since it was not ripe in the rounds before. -/
def Heights.extend (productions : List Production) : Nat → Nat → Heights → Heights
  | 0, _, known => known
  | rounds + 1, height, known =>
    match known.ripe productions with
    | [] => known
    | names => extend productions rounds (height + 1) (known ++ names.map (·, height))

/-- The names that have finite derivations, each with its least height. Every round but the last finds
a new head, so there are never more rounds than productions. -/
def heightsOf (productions : List Production) : Heights :=
  Heights.extend productions productions.length 1 []

end Viable
