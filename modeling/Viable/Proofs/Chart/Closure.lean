import Mathlib.Algebra.BigOperators.Ring.List
import Mathlib.Algebra.Ring.Nat
import Viable.Chart.Column
import Viable.Proofs.Chart.Validity
import Viable.Proofs.Worklist

/-! Closing a column finds exactly the items that are deduced there. -/

namespace Viable

/-- The production of an item exists, its dot does not lie behind the body, and its origin does not lie behind `place`. -/
structure Item.InRange (grammar : Grammar) (place : Nat) (item : Item) : Prop where
  production_lt : item.production < grammar.productions.size
  dot_le : item.dot ≤ grammar.productions[item.production].body.length
  origin_le : item.origin ≤ place

/-- The items of one production that have their origin among the places so far. -/
def Production.items (production : Production) (position place : Nat) : List Item :=
  (List.range (production.body.length + 1)).flatMap fun dot =>
    (List.range (place + 1)).map fun origin => ⟨position, dot, origin⟩

theorem Production.length_items (production : Production) (position place : Nat) :
    (production.items position place).length = (production.body.length + 1) * (place + 1) := by
  simp only [items, List.length_flatMap, List.length_map, List.length_range, List.map_const', List.sum_replicate_nat]

theorem Production.mem_items {production : Production} {position place : Nat} {item : Item} :
    item ∈ production.items position place ↔
      item.production = position ∧ item.dot ≤ production.body.length ∧ item.origin ≤ place := by
  simp only [items, List.mem_flatMap, List.mem_map, List.mem_range, Nat.lt_succ_iff]
  constructor
  · rintro ⟨dot, inside, origin, before, rfl⟩
    exact ⟨rfl, inside, before⟩
  · rintro ⟨rfl, inside, before⟩
    exact ⟨item.dot, inside, item.origin, before, rfl⟩

def Grammar.items (grammar : Grammar) (place : Nat) : List Item :=
  grammar.productions.toList.zipIdx.flatMap fun entry => entry.1.items entry.2 place

theorem Grammar.mem_items {grammar : Grammar} {place : Nat} {item : Item} :
    item ∈ grammar.items place ↔ item.InRange grammar place := by
  rw [items, List.mem_flatMap]
  constructor
  · intro listed
    obtain ⟨⟨production, position⟩, entry, member⟩ := listed
    obtain ⟨rfl, dot, origin⟩ := Production.mem_items.mp member
    obtain ⟨inside, same⟩ := List.getElem?_eq_some_iff.mp (List.mk_mem_zipIdx_iff_getElem?.mp entry)
    rw [Array.getElem_toList] at same
    exact ⟨by simpa using inside, same ▸ dot, origin⟩
  · intro range
    have inside := range.production_lt
    have entry : (grammar.productions[item.production], item.production) ∈ grammar.productions.toList.zipIdx := by
      rw [List.mk_mem_zipIdx_iff_getElem?, Array.getElem?_toList, Array.getElem?_eq_getElem inside]
    exact ⟨_, entry, Production.mem_items.mpr ⟨rfl, range.dot_le, range.origin_le⟩⟩

theorem Item.Valid.inRange {grammar : Grammar} {start : Name} {tokens : List String} {place : Nat} {item : Item}
    {production : Production} (valid : item.Valid grammar start tokens place production) : item.InRange grammar place := by
  obtain ⟨inside, same⟩ := Array.getElem?_eq_some_iff.mp valid.present
  exact ⟨inside, same ▸ valid.dot_le, valid.origin_le⟩

theorem Grammar.dottedCount_eq (grammar : Grammar) :
    grammar.dottedCount = (grammar.productions.toList.map (·.body.length + 1)).sum := by
  rw [dottedCount, List.sum_eq_foldr, List.foldr_map]

/-- The room that a column is closed with. -/
theorem Grammar.length_items (grammar : Grammar) (place : Nat) :
    (grammar.items place).length = grammar.dottedCount * (place + 1) := by
  calc
    _ = (grammar.productions.toList.zipIdx.map fun entry => (entry.1.body.length + 1) * (place + 1)).sum := by
      simp only [items, List.length_flatMap, Production.length_items]
    _ = ((grammar.productions.toList.zipIdx.map Prod.fst).map fun production =>
        (production.body.length + 1) * (place + 1)).sum := by rw [List.map_map]; rfl
    _ = _ := by rw [List.zipIdx_map_fst, List.sum_map_mul_right, dottedCount_eq]

namespace Column

variable {grammar : Grammar} {earlier : Array Column}

/-- What an item brings into the column, rule by rule. -/
theorem mem_successors {item other : Item} :
    other ∈ successors grammar earlier item ↔
      (∃ name, item.next? grammar = some (.nonterminal name) ∧
        ((∃ position ∈ grammar.alternatives name, other = ⟨position, 0, earlier.size⟩) ∨
          (grammar.isNullable name ∧ other = item.advance))) ∨
      (item.next? grammar = none ∧ ∃ column name parent, earlier[item.origin]? = some column ∧
        item.head? grammar = some name ∧ parent ∈ column ∧
        parent.next? grammar = some (.nonterminal name) ∧ other = parent.advance) := by
  unfold successors
  split
  case h_1 name next =>
    have predicted : other ∈ (grammar.alternatives name).map (fun production => (⟨production, 0, earlier.size⟩ : Item)) ↔
        ∃ position ∈ grammar.alternatives name, other = ⟨position, 0, earlier.size⟩ := by
      simp only [List.mem_map, eq_comm]
    by_cases nullable : grammar.isNullable name
    · simp [next, nullable, predicted, or_comm]
    · simp [next, nullable, predicted]
  case h_2 next => simp [next]
  case h_3 next =>
    split
    case h_1 column name found head =>
      rw [Item.mem_filterMap_over?]
      constructor
      · intro present
        obtain ⟨parent, member, expects, rfl⟩ := present
        exact .inr ⟨next, column, name, parent, found, head, member, expects, rfl⟩
      · intro present
        rcases present with unfinished | completed
        · obtain ⟨_, expects, _⟩ := unfinished
          cases next.symm.trans expects
        · obtain ⟨_, _, _, parent, foundAgain, headAgain, member, expects, rfl⟩ := completed
          cases found.symm.trans foundAgain
          cases head.symm.trans headAgain
          exact ⟨parent, member, expects, rfl⟩
    case h_2 missing =>
      simp only [next, List.not_mem_nil, reduceCtorEq, false_and, exists_false, true_and, false_or, false_iff]
      intro present
      obtain ⟨column, name, _, found, head, _⟩ := present
      exact missing column name found head

/-- The column holds what is deduced at its place. -/
def Exact (grammar : Grammar) (start : Name) (tokens : List String) (place : Nat) (column : Column) : Prop :=
  ∀ item, item ∈ column ↔ Charted grammar start tokens place item

/-- So does every column of an array, from the one before any token on. -/
def AllExact (grammar : Grammar) (start : Name) (tokens : List String) (columns : Array Column) : Prop :=
  ∀ place column, columns[place]? = some column → Exact grammar start tokens place column

variable {start : Name} {tokens : List String} {items : List Item}

theorem AllExact.empty (grammar : Grammar) (start : Name) (tokens : List String) :
    AllExact grammar start tokens #[] := by
  intro place column found
  simp at found

theorem AllExact.push {column : Column} (exact : AllExact grammar start tokens earlier)
    (last : Exact grammar start tokens earlier.size column) :
    AllExact grammar start tokens (earlier.push column) := by
  intro place other found
  rw [Array.getElem?_push] at found
  split at found
  case isTrue same =>
    cases found
    exact same ▸ last
  case isFalse => exact exact place other found

theorem AllExact.take {columns : Array Column} (exact : AllExact grammar start tokens columns) (count : Nat) :
    AllExact grammar start tokens (columns.take count) := by
  intro place column found
  apply exact place column
  rw [Array.take, Array.getElem?_extract] at found
  split at found
  case isTrue => rwa [Nat.zero_add] at found
  case isFalse => cases found

/-- The columns so far stay as they are when tokens come behind them. -/
theorem AllExact.append (exact : AllExact grammar start tokens earlier) (inside : earlier.size ≤ tokens.length + 1)
    (more : List String) : AllExact grammar start (tokens ++ more) earlier := by
  intro place column found item
  have before := (Array.getElem?_eq_some_iff.mp found).1
  have agree : tokens.take place = (tokens ++ more).take place := by
    rw [List.take_append_of_le_length (by omega)]
  rw [exact place column found item]
  exact ⟨fun charted => charted.of_take_eq agree, fun charted => charted.of_take_eq agree.symm⟩

/-- What a column can be closed from: items that are deduced at its place, and among them all that are deduced without
prediction or completion, the alternatives of the start or what the token before the place has moved. -/
structure Seeds (grammar : Grammar) (start : Name) (tokens : List String) (place : Nat) (items : List Item) : Prop where
  sound : ∀ item ∈ items, Charted grammar start tokens place item
  starts : place = 0 → ∀ position ∈ grammar.alternatives start, ⟨position, 0, 0⟩ ∈ items
  scans : ∀ before item token, place = before + 1 → Charted grammar start tokens before item →
    item.next? grammar = some (.terminal token) → tokens[before]? = some token → item.advance ∈ items

theorem seeds_start (grammar : Grammar) (start : Name) (tokens : List String) :
    Seeds grammar start tokens 0 ((grammar.alternatives start).map (⟨·, 0, 0⟩)) := by
  refine ⟨fun item member => ?_, fun _ position alternative => List.mem_map_of_mem alternative, fun before _ _ after => ?_⟩
  · obtain ⟨position, alternative, rfl⟩ := List.mem_map.mp member
    exact .start alternative
  · omega

theorem seeds_scanned {place : Nat} {column : Column} {token : String} (exact : Exact grammar start tokens place column)
    (read : tokens[place]? = some token) :
    Seeds grammar start tokens (place + 1) (column.filterMap (·.over? grammar (.terminal token))) := by
  refine ⟨fun other member => ?_, fun first => ?_, fun before item other last charted next same => ?_⟩
  · obtain ⟨item, present, next, rfl⟩ := Item.mem_filterMap_over?.mp member
    exact ((exact item).mp present).scan next read
  · omega
  · obtain rfl : place = before := by omega
    obtain rfl : token = other := Option.some.inj (read.symm.trans same)
    exact Item.mem_filterMap_over?.mpr ⟨item, (exact item).mpr charted, next, rfl⟩

theorem charted_of_reached (exact : AllExact grammar start tokens earlier)
    (sound : ∀ item ∈ items, Charted grammar start tokens earlier.size item) {item : Item}
    (reached : Reached (successors grammar earlier) items item) :
    Charted grammar start tokens earlier.size item := by
  induction reached with
  | initial member => exact sound _ member
  | step _ successor ih =>
    rcases mem_successors.mp successor with unfinished | completed
    · obtain ⟨name, next, predicted | skipped⟩ := unfinished
      · obtain ⟨position, alternative, rfl⟩ := predicted
        exact ih.predict next alternative
      · obtain ⟨nullable, rfl⟩ := skipped
        exact ih.skip next nullable
    · obtain ⟨finished, column, name, parent, found, head, member, next, rfl⟩ := completed
      have before := (Array.getElem?_eq_some_iff.mp found).1
      exact ih.complete finished head before ((exact _ column found parent).mp member) next

/-- Prediction and completion lead from the seeds to whatever is deduced. -/
theorem reached_iff_charted (exact : AllExact grammar start tokens earlier)
    (seeds : Seeds grammar start tokens earlier.size items) (item : Item) :
    Reached (successors grammar earlier) items item ↔ Charted grammar start tokens earlier.size item := by
  refine ⟨charted_of_reached exact seeds.sound, fun charted => ?_⟩
  -- The last rule of the deduction decides: the rules within the column are steps, the others are given.
  generalize here : earlier.size = place at charted
  induction charted with
  | start alternative => exact .initial (seeds.starts here _ alternative)
  | predict _ next alternative ih =>
    apply Reached.step (ih here)
    apply mem_successors.mpr
    exact .inl ⟨_, next, .inl ⟨_, alternative, here ▸ rfl⟩⟩
  | skip _ next nullable ih =>
    apply Reached.step (ih here)
    apply mem_successors.mpr
    exact .inl ⟨_, next, .inr ⟨nullable, rfl⟩⟩
  | complete _ finished head before waits next ih _ =>
    have found := Array.getElem?_eq_getElem (here ▸ before)
    have member := (exact _ _ found _).mpr waits
    apply Reached.step (ih here)
    apply mem_successors.mpr
    exact .inr ⟨finished, _, _, _, found, head, member, next, rfl⟩
  | scan charted next read => exact .initial (seeds.scans _ _ _ here charted next read)

theorem mem_items_of_reached (exact : AllExact grammar start tokens earlier)
    (seeds : Seeds grammar start tokens earlier.size items) {item : Item}
    (reached : Reached (successors grammar earlier) items item) : item ∈ grammar.items earlier.size := by
  obtain ⟨production, valid⟩ := (charted_of_reached exact seeds.sound reached).valid
  exact Grammar.mem_items.mpr valid.inRange

/-- The room that a column is closed with is enough. -/
theorem mem_close_iff (exact : AllExact grammar start tokens earlier)
    (seeds : Seeds grammar start tokens earlier.size items) (item : Item) :
    item ∈ close grammar earlier items ↔ Reached (successors grammar earlier) items item :=
  mem_saturate_iff (fun _ => mem_items_of_reached exact seeds) (grammar.length_items earlier.size).le item

/-- Closing adds what is deduced by prediction and completion. -/
theorem exact_close (exact : AllExact grammar start tokens earlier)
    (seeds : Seeds grammar start tokens earlier.size items) :
    Exact grammar start tokens earlier.size (close grammar earlier items) := fun item =>
  (mem_close_iff exact seeds item).trans (reached_iff_charted exact seeds item)

/-- A column is closed with the same items in whatever order they are taken. -/
theorem perm_close (exact : AllExact grammar start tokens earlier)
    (seeds : Seeds grammar start tokens earlier.size items) {found : List Item}
    (ends : Worklist.Ends (successors grammar earlier) items found) : found.Perm (close grammar earlier items) :=
  ends.perm (nodup_saturate ..) (mem_close_iff exact seeds)

end Column

end Viable
