import Viable.Chart.Item
import Viable.Saturation
import Viable.TokenSet

/-! Chart columns: all the items that are valid after a number of tokens. -/

namespace Viable

/-- The distinct items at one place between the tokens. -/
abbrev Column := List Item

namespace Column

/-- The items that `item` brings into the column after `earlier.size` tokens. What begins and ends
in one place is nullable and has been stepped over, so only earlier columns are looked up. -/
def successors (grammar : Grammar) (earlier : Array Column) (item : Item) : List Item :=
  match item.next? grammar with
  | some (.nonterminal name) =>
    let predicted := (grammar.alternatives name).map fun production => ⟨production, 0, earlier.size⟩
    if grammar.isNullable name then item.advance :: predicted else predicted
  | some (.terminal _) => []
  | none =>
    match earlier[item.origin]?, item.head? grammar with
    | some column, some head => column.filterMap (·.over? grammar (.nonterminal head))
    | _, _ => []

/-- Adds all that follows from some items. Each item is a dotted production with an origin, and the
origins are the places so far, which bounds the size of the column. -/
def close (grammar : Grammar) (earlier : Array Column) (items : List Item) : Column :=
  saturate (successors grammar earlier) (grammar.dottedCount * (earlier.size + 1)) items

/-- The tokens that some item of the column waits for. -/
def expected (grammar : Grammar) (column : Column) : TokenSet :=
  .ofList (column.filterMap fun item => (item.next? grammar).bind Symbol.text?)

end Column

end Viable
