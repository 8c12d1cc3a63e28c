import Viable.Chart.Item
import Viable.Proofs.Grammar.Table

/-! Earley's rules as a deduction system. Each item of a chart is deduced from items in the same column or in
earlier ones, so a column depends on nothing but the tokens before it. -/

namespace Viable

/-- The items of the column after `place` of the tokens. -/
inductive Charted (grammar : Grammar) (start : Name) (tokens : List String) : Nat → Item → Prop where
  | start {position : Nat} (alternative : position ∈ grammar.alternatives start) :
      Charted grammar start tokens 0 ⟨position, 0, 0⟩
  | predict {place : Nat} {item : Item} {name : Name} {position : Nat}
      (charted : Charted grammar start tokens place item) (next : item.next? grammar = some (.nonterminal name))
      (alternative : position ∈ grammar.alternatives name) :
      Charted grammar start tokens place ⟨position, 0, place⟩
  | skip {place : Nat} {item : Item} {name : Name} (charted : Charted grammar start tokens place item)
      (next : item.next? grammar = some (.nonterminal name)) (nullable : grammar.isNullable name) :
      Charted grammar start tokens place item.advance
  | complete {place : Nat} {item parent : Item} {name : Name} (charted : Charted grammar start tokens place item)
      (finished : item.next? grammar = none) (head : item.head? grammar = some name)
      (earlier : item.origin < place) (waits : Charted grammar start tokens item.origin parent)
      (next : parent.next? grammar = some (.nonterminal name)) :
      Charted grammar start tokens place parent.advance
  | scan {place : Nat} {item : Item} {token : String} (charted : Charted grammar start tokens place item)
      (next : item.next? grammar = some (.terminal token)) (read : tokens[place]? = some token) :
      Charted grammar start tokens (place + 1) item.advance

namespace Item

variable {grammar : Grammar} {item : Item} {production : Production}

theorem next?_eq (present : grammar.productions[item.production]? = some production) :
    item.next? grammar = production.body[item.dot]? := by
  simp [next?, present]

theorem head?_eq (present : grammar.productions[item.production]? = some production) :
    item.head? grammar = some production.head := by
  simp [head?, present]

/-- What the items before a symbol become behind it. -/
theorem mem_filterMap_over? {items : List Item} {symbol : Symbol} {other : Item} :
    other ∈ items.filterMap (·.over? grammar symbol) ↔
      ∃ item ∈ items, item.next? grammar = some symbol ∧ item.advance = other := by
  simp only [over?, List.mem_filterMap, Option.ite_none_right_eq_some, Option.some_inj]

end Item

namespace Charted

variable {grammar : Grammar} {start : Name} {tokens : List String} {place : Nat} {item : Item}

theorem take_eq_of_le {other : List String} {first later : Nat} (order : first ≤ later)
    (agree : tokens.take later = other.take later) : tokens.take first = other.take first := by
  have agreeEarlier := congrArg (List.take first) agree
  rwa [List.take_take, List.take_take, Nat.min_eq_left order] at agreeEarlier

/-- A column is the same for all token lists that agree up to it. -/
theorem of_take_eq {other : List String} (charted : Charted grammar start tokens place item)
    (agree : tokens.take place = other.take place) : Charted grammar start other place item := by
  induction charted with
  | start alternative => exact .start alternative
  | predict _ next alternative ih => exact (ih agree).predict next alternative
  | skip _ next nullable ih => exact (ih agree).skip next nullable
  | complete _ finished head earlier _ next ih ihWaits =>
    exact (ih agree).complete finished head earlier (ihWaits (take_eq_of_le earlier.le agree)) next
  | @scan place _ token _ next read ih =>
    have same : tokens[place]? = other[place]? := by
      rw [← List.getElem?_take_of_succ, agree, List.getElem?_take_of_succ]
    exact (ih (take_eq_of_le (Nat.le_succ place) agree)).scan next (same ▸ read)

end Charted

end Viable
