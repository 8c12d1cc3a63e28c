import Viable.Proofs.Chart.Deduction
import Viable.Proofs.Grammar.Opening

/-! Earley's rules deduce exactly the valid items: those whose production can stand behind the tokens before
its origin, and whose matched symbols derive the tokens since then. -/

namespace Viable

/-- What an item of a column means: the start can be rewritten to the tokens before the origin and then the
head of the production, and the symbols before the dot derive the tokens from the origin to the place. -/
structure Item.Valid (grammar : Grammar) (start : Name) (tokens : List String) (place : Nat) (item : Item)
    (production : Production) : Prop where
  present : grammar.productions[item.production]? = some production
  dot_le : item.dot ≤ production.body.length
  origin_le : item.origin ≤ place
  context : ∃ rest, RewritesTo grammar.productions.toList [.nonterminal start]
    (spell (tokens.take item.origin) ++ .nonterminal production.head :: rest)
  matched : Derives grammar.productions.toList (production.body.take item.dot)
    (tokens.extract item.origin place)

theorem extract_append_extract (tokens : List String) {first middle last : Nat} (early : first ≤ middle)
    (late : middle ≤ last) :
    tokens.extract first middle ++ tokens.extract middle last = tokens.extract first last := by
  have width : last - first = (middle - first) + (last - middle) := by omega
  have reach : first + (middle - first) = middle := by omega
  simp only [List.extract_eq_take_drop]
  rw [width, List.take_add, List.drop_drop, reach]

theorem take_append_extract (tokens : List String) {first last : Nat} (order : first ≤ last) :
    tokens.take first ++ tokens.extract first last = tokens.take last := by
  simpa using extract_append_extract tokens (Nat.zero_le first) order

theorem extract_append_drop (tokens : List String) {first last : Nat} (order : first ≤ last) :
    tokens.extract first last ++ tokens.drop last = tokens.drop first := by
  have reach : first + (last - first) = last := by omega
  rw [List.extract_eq_take_drop, ← congrArg (tokens.drop ·) reach, ← List.drop_drop, List.take_append_drop]

variable {grammar : Grammar} {start : Name} {tokens : List String} {place : Nat} {item : Item}

namespace Item.Valid

variable {production : Production}

theorem advance {later : Nat} (valid : item.Valid grammar start tokens place production) {symbol : Symbol}
    (next : item.next? grammar = some symbol) (order : place ≤ later)
    (derives : Derives grammar.productions.toList [symbol] (tokens.extract place later)) :
    item.advance.Valid grammar start tokens later production := by
  rw [Item.next?_eq valid.present] at next
  obtain ⟨inside, same⟩ := List.getElem?_eq_some_iff.mp next
  refine ⟨valid.present, inside, valid.origin_le.trans order, valid.context, ?_⟩
  have matched := valid.matched.append derives
  rwa [extract_append_extract tokens valid.origin_le order, ← same, ← List.take_succ_eq_append_getElem inside] at matched

/-- Where the next symbol of a valid item is expected, the start can be rewritten to it. -/
theorem rewritesTo (valid : item.Valid grammar start tokens place production) {symbol : Symbol}
    (next : item.next? grammar = some symbol) :
    ∃ rest, RewritesTo grammar.productions.toList [.nonterminal start]
      (spell (tokens.take place) ++ symbol :: rest) := by
  rw [Item.next?_eq valid.present] at next
  obtain ⟨inside, same⟩ := List.getElem?_eq_some_iff.mp next
  obtain ⟨after, steps⟩ := valid.context
  refine ⟨production.body.drop (item.dot + 1) ++ after, steps.trans ?_⟩
  have body : production.body = production.body.take item.dot ++ symbol :: production.body.drop (item.dot + 1) := by
    rw [← same, List.getElem_cons_drop, List.take_append_drop]
  have opened : RewritesTo grammar.productions.toList production.body
      (spell (tokens.extract item.origin place) ++ symbol :: production.body.drop (item.dot + 1)) := by
    conv_lhs => rw [body]
    exact .append valid.matched.rewritesTo .refl
  have expanded := RewritesTo.append (.refl (a := spell (tokens.take item.origin)))
    (RewritesTo.expand (Grammar.mem_productions valid.present) opened (.refl (a := after)))
  rwa [← take_append_extract tokens valid.origin_le, spell_append, List.append_assoc, ← List.cons_append,
    ← List.append_assoc (spell (tokens.extract _ _))]

end Item.Valid

theorem Derives.single {production : Production} (present : grammar.productions[item.production]? = some production)
    {tokens : List String} (children : Derives grammar.productions.toList production.body tokens) :
    Derives grammar.productions.toList [.nonterminal production.head] tokens :=
  .of_body (Grammar.mem_productions present) children

namespace Item.Valid

variable {production : Production}

/-- An item with nothing before its dot is valid where the head of its production is expected. -/
theorem initial {name : Name} {position : Nat} (alternative : position ∈ grammar.alternatives name)
    {rest : Body} (expected : RewritesTo grammar.productions.toList [.nonterminal start]
      (spell (tokens.take place) ++ .nonterminal name :: rest)) :
    ∃ production, Item.Valid grammar start tokens place ⟨position, 0, place⟩ production := by
  obtain ⟨production, present, rfl⟩ := Grammar.mem_alternatives.mp alternative
  refine ⟨production, present, Nat.zero_le _, le_refl place, ⟨rest, expected⟩, ?_⟩
  simpa using Derives.nil

/-- With the dot at the end, the head derives the tokens since the origin. -/
theorem derives_head (valid : item.Valid grammar start tokens place production)
    (finished : item.next? grammar = none) :
    Derives grammar.productions.toList [.nonterminal production.head] (tokens.extract item.origin place) := by
  rw [Item.next?_eq valid.present] at finished
  have whole := List.take_of_length_le (List.getElem?_eq_none_iff.mp finished)
  exact .single valid.present (whole ▸ valid.matched)

end Item.Valid

/-- Soundness: every rule keeps items valid. -/
theorem Charted.valid (charted : Charted grammar start tokens place item) :
    ∃ production, item.Valid grammar start tokens place production := by
  induction charted with
  | start alternative =>
    have expected : RewritesTo grammar.productions.toList [.nonterminal start]
        (spell (tokens.take 0) ++ [.nonterminal start]) := .refl
    exact Item.Valid.initial alternative expected
  | predict _ next alternative ih =>
    obtain ⟨production, valid⟩ := ih
    obtain ⟨rest, expected⟩ := valid.rewritesTo next
    exact Item.Valid.initial alternative expected
  | @skip place _ name _ next nullable ih =>
    obtain ⟨production, valid⟩ := ih
    have nothing : Derives grammar.productions.toList [.nonterminal name] (tokens.extract place place) := by
      simpa using Grammar.isNullable_iff.mp nullable
    exact ⟨production, valid.advance next le_rfl nothing⟩
  | complete _ finished head earlier _ next ih ihWaits =>
    obtain ⟨production, valid⟩ := ih
    obtain ⟨parent, validParent⟩ := ihWaits
    rw [Item.head?_eq valid.present, Option.some_inj] at head
    subst head
    exact ⟨parent, validParent.advance next earlier.le (valid.derives_head finished)⟩
  | @scan place item token _ next read ih =>
    obtain ⟨production, valid⟩ := ih
    have one : tokens.extract place (place + 1) = [token] := by
      rw [List.extract_eq_take_drop, Nat.add_sub_cancel_left, List.take_one, List.head?_drop, read]
      rfl
    have reads : Derives grammar.productions.toList [.terminal token] (tokens.extract place (place + 1)) := by
      rw [one]
      exact Derives.nil.terminal token
    exact ⟨production, valid.advance next (Nat.le_succ place) reads⟩

theorem uncons_drop {α : Type} {list rest : List α} {count : Nat} {first : α}
    (remains : list.drop count = first :: rest) : list[count]? = some first ∧ list.drop (count + 1) = rest := by
  constructor
  · rw [← List.head?_drop, remains, List.head?_cons]
  · rw [← List.tail_drop, remains, List.tail_cons]

namespace Charted

variable {production : Production}

theorem next_of_follows (present : grammar.productions[item.production]? = some production) {symbol : Symbol}
    {rest : Body} (follows : production.body.drop item.dot = symbol :: rest) :
    item.next? grammar = some symbol := by
  rw [Item.next?_eq present, (uncons_drop follows).1]

theorem predicted (charted : Charted grammar start tokens place item) {child : Production}
    (member : child ∈ grammar.productions.toList)
    (next : item.next? grammar = some (.nonterminal child.head)) :
    ∃ position, grammar.productions[position]? = some child ∧
      Charted grammar start tokens place ⟨position, 0, place⟩ := by
  obtain ⟨position, found⟩ := List.getElem?_of_mem member
  rw [Array.getElem?_toList] at found
  exact ⟨position, found, charted.predict next (Grammar.mem_alternatives.mpr ⟨child, found, rfl⟩)⟩

/-- An item moves over its next nonterminal once a production of that nonterminal is completed. Without
tokens in between, that production has its origin in the same column, where completion does not look. -/
theorem past (charted : Charted grammar start tokens place item) {child : Production} {position : Nat}
    (present : grammar.productions[position]? = some child)
    (next : item.next? grammar = some (.nonterminal child.head)) {first : List String}
    (children : Derives grammar.productions.toList child.body first)
    (completed : Charted grammar start tokens (place + first.length) ⟨position, child.body.length, place⟩) :
    Charted grammar start tokens (place + first.length) item.advance := by
  by_cases nothing : first = []
  · subst nothing
    have nullable := Grammar.isNullable_iff.mpr (Derives.node (Grammar.mem_productions present) children .nil)
    exact charted.skip next nullable
  · have longer := List.length_pos_iff.mpr nothing
    have finished : Item.next? grammar ⟨position, child.body.length, place⟩ = none := by
      rw [Item.next?_eq present, List.getElem?_length]
    exact completed.complete finished (Item.head?_eq present) (by simp only; omega) charted next

/-- An item moves over symbols that derive the tokens that come next. -/
theorem moves_over {body rest : Body} {first tail : List String}
    (derives : Derives grammar.productions.toList body first)
    (charted : Charted grammar start tokens place item)
    (present : grammar.productions[item.production]? = some production)
    (follows : production.body.drop item.dot = body ++ rest) (read : tokens.drop place = first ++ tail) :
    Charted grammar start tokens (place + first.length)
      ⟨item.production, item.dot + body.length, item.origin⟩ := by
  induction derives using Derives.tree_induction generalizing place item production rest tail with
  | nil => exact charted
  | terminal text _ ih =>
    have scanned := charted.scan (next_of_follows present follows) (uncons_drop read).1
    have moved := ih scanned present (uncons_drop follows).2 (uncons_drop read).2
    simpa only [Item.advance, List.length_cons, Nat.add_assoc, Nat.add_comm 1] using moved
  | @node child body first second member children _ ihChildren ihRest =>
    have next := next_of_follows present follows
    obtain ⟨position, presentChild, predicted⟩ := charted.predicted member next
    have completed := ihChildren predicted presentChild (List.append_nil _).symm
      (read.trans (List.append_assoc ..))
    simp only [Nat.zero_add] at completed
    have readRest : tokens.drop (place + first.length) = second ++ tail := by
      rw [← List.drop_drop, read, List.append_assoc, List.drop_left]
    have moved := ihRest (charted.past presentChild next children completed) present
      (uncons_drop follows).2 readRest
    simpa only [Item.advance, List.length_cons, List.length_append, Nat.add_assoc, Nat.add_comm 1] using moved

theorem moves (charted : Charted grammar start tokens place item) {child : Production}
    (member : child ∈ grammar.productions.toList) (next : item.next? grammar = some (.nonterminal child.head))
    {first tail : List String} (children : Derives grammar.productions.toList child.body first)
    (read : tokens.drop place = first ++ tail) :
    Charted grammar start tokens (place + first.length) item.advance := by
  obtain ⟨position, present, predicted⟩ := charted.predicted member next
  have completed := moves_over children predicted present (List.append_nil _).symm read
  simp only [Nat.zero_add] at completed
  exact charted.past present next children completed

/-- Down the left edge of what an item still has to match, each symbol is expected by some item. -/
theorem exists_next {body : Body} {first tail : List String} {target : Symbol}
    (opens : Opens grammar.productions.toList body first target)
    (charted : Charted grammar start tokens place item)
    (present : grammar.productions[item.production]? = some production)
    (follows : production.body.drop item.dot = body) (read : tokens.drop place = first ++ tail) :
    ∃ expecting, Charted grammar start tokens (place + first.length) expecting ∧
      expecting.next? grammar = some target := by
  induction opens generalizing place item production tail with
  | here => exact ⟨item, charted, next_of_follows present follows⟩
  | terminal text _ ih =>
    have scanned := charted.scan (next_of_follows present follows) (uncons_drop read).1
    have found := ih scanned present (uncons_drop follows).2 (uncons_drop read).2
    simpa only [List.length_cons, Nat.add_assoc, Nat.add_comm 1] using found
  | @past child member rest first second _ children _ ih =>
    rw [List.append_assoc] at read
    have moved := charted.moves member (next_of_follows present follows) children read
    have readRest : tokens.drop (place + first.length) = second ++ tail := by
      rw [← List.drop_drop, read, List.drop_left]
    have found := ih moved present (uncons_drop follows).2 readRest
    simpa only [List.length_append, Nat.add_assoc] using found
  | into member _ _ ih =>
    obtain ⟨position, presentChild, predicted⟩ := charted.predicted member (next_of_follows present follows)
    exact ih predicted presentChild rfl read

/-- What the start can be rewritten to begins with tokens and then a symbol that an item expects there, or
with the start itself. -/
theorem exists_next_of_rewritesTo {target : Symbol} {rest : Body} (inside : place ≤ tokens.length)
    (steps : RewritesTo grammar.productions.toList [.nonterminal start]
      (spell (tokens.take place) ++ target :: rest)) :
    (place = 0 ∧ target = .nonterminal start) ∨
      ∃ expecting, Charted grammar start tokens place expecting ∧ expecting.next? grammar = some target := by
  have opens := opens_iff_rewritesTo.mpr ⟨rest, steps⟩
  have width : (tokens.take place).length = place := List.length_take_of_le inside
  generalize taken : tokens.take place = first at opens
  rw [taken] at width
  cases opens with
  | here => exact .inl ⟨width.symm, rfl⟩
  | past _ _ opens => cases opens
  | @into child member _ _ _ opens =>
    obtain ⟨position, found⟩ := List.getElem?_of_mem member
    rw [Array.getElem?_toList] at found
    have root : Charted grammar child.head tokens 0 ⟨position, 0, 0⟩ :=
      .start (Grammar.mem_alternatives.mpr ⟨child, found, rfl⟩)
    have read : tokens.drop 0 = first ++ tokens.drop place := by
      rw [← taken, List.drop_zero, List.take_append_drop]
    have expected := exists_next opens root found rfl read
    rw [Nat.zero_add, width] at expected
    exact .inr expected

/-- Completeness: every valid item is deduced. -/
theorem of_valid (valid : item.Valid grammar start tokens place production) (inside : place ≤ tokens.length) :
    Charted grammar start tokens place item := by
  obtain ⟨rest, steps⟩ := valid.context
  have initial : Charted grammar start tokens item.origin ⟨item.production, 0, item.origin⟩ := by
    have alternative := Grammar.mem_alternatives.mpr ⟨production, valid.present, rfl⟩
    rcases exists_next_of_rewritesTo (valid.origin_le.trans inside) steps with atStart | expected
    · obtain ⟨first, same⟩ := atStart
      rw [Symbol.nonterminal.injEq] at same
      rw [first]
      exact .start (same ▸ alternative)
    · obtain ⟨expecting, charted, next⟩ := expected
      exact charted.predict next alternative
  have follows : production.body.drop 0 = production.body.take item.dot ++ production.body.drop item.dot := by
    rw [List.drop_zero, List.take_append_drop]
  have moved := moves_over valid.matched initial valid.present follows
    (extract_append_drop tokens valid.origin_le).symm
  have width : item.origin + (tokens.extract item.origin place).length = place := by
    have order := valid.origin_le
    simp only [List.extract_eq_take_drop, List.length_take, List.length_drop]
    omega
  rwa [width, Nat.zero_add, List.length_take_of_le valid.dot_le] at moved

end Charted

theorem charted_iff_valid (inside : place ≤ tokens.length) :
    Charted grammar start tokens place item ↔ ∃ production, item.Valid grammar start tokens place production := by
  constructor
  · exact Charted.valid
  · intro found
    obtain ⟨production, valid⟩ := found
    exact .of_valid valid inside

end Viable
