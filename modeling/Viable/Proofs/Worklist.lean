import Mathlib.Data.Prod.Lex
import Mathlib.Logic.Relation
import Viable.Proofs.Saturation

/-! Worklists that take what waits in any order. Where only finitely many items can be reached, every run of such
a worklist comes to its end, and all of them end with the same items, however often an item has waited. -/

namespace Viable

/-- What waits, and what has been found. -/
structure Worklist (α : Type) where
  agenda : List α
  found : List α

namespace Worklist

variable {α : Type} {successors : α → List α} {initial everything found : List α} {list next : Worklist α}

/-- Before anything has been found. -/
def start (initial : List α) : Worklist α := ⟨initial, []⟩

/-- One turn takes any item that waits. A known one is dropped. A new one is found, and from then on its successors
wait beside the others, unless they have been found already. -/
inductive Turn (successors : α → List α) : Worklist α → Worklist α → Prop where
  | drop (before : List α) {after found : List α} {item : α} (known : item ∈ found) :
      Turn successors ⟨before ++ item :: after, found⟩ ⟨before ++ after, found⟩
  | visit {agenda agenda' found : List α} {item : α} (waits : item ∈ agenda) (new : item ∉ found)
      (waiting : ∀ other ∈ agenda', other ∈ agenda ∨ other ∈ successors item)
      (covered : ∀ other, other ∈ agenda ∨ other ∈ successors item → other ∈ agenda' ∨ other ∈ item :: found) :
      Turn successors ⟨agenda, found⟩ ⟨agenda', item :: found⟩

/-- From the initial items the worklist can be run until nothing waits, with these items found on the way. -/
def Ends (successors : α → List α) (initial found : List α) : Prop :=
  Relation.ReflTransGen (Turn successors) (start initial) ⟨[], found⟩

/-- What every turn keeps: the lists are those of a saturation, and nothing is found twice. -/
structure Sound (successors : α → List α) (initial : List α) (list : Worklist α) : Prop where
  saturating : Saturating successors initial list.agenda list.found
  nodup : list.found.Nodup

theorem sound_start (successors : α → List α) (initial : List α) : Sound successors initial (start initial) :=
  ⟨.start successors initial, .nil⟩

theorem Turn.sound (turn : Turn successors list next) (sound : Sound successors initial list) :
    Sound successors initial next := by
  cases turn with
  | @drop before after found item known =>
    have fewer : before ++ after ⊆ before ++ item :: after :=
      ((List.sublist_cons_self item after).append_left before).subset
    refine ⟨sound.saturating.drop fewer fun other waits => ?_, sound.nodup⟩
    rcases List.mem_append.mp waits with early | late
    · exact .inl (List.mem_append_left after early)
    · rcases List.mem_cons.mp late with rfl | late
      · exact .inr known
      · exact .inl (List.mem_append_right before late)
  | visit waits new waiting covered =>
    exact ⟨sound.saturating.next waits waiting (fun _ => List.mem_cons) covered, List.nodup_cons.mpr ⟨new, sound.nodup⟩⟩

/-- From the initial items the worklist can come to be this one. -/
def Passes (successors : α → List α) (initial : List α) (list : Worklist α) : Prop :=
  Relation.ReflTransGen (Turn successors) (start initial) list

theorem Passes.sound (passes : Passes successors initial list) : Sound successors initial list := by
  refine Relation.ReflTransGen.rec (motive := fun list _ => Sound successors initial list)
    (sound_start successors initial) (fun _ turn ih => turn.sound ih) passes

/-- Whatever waits or has been found at any time can be reached. -/
theorem Passes.reached (passes : Passes successors initial list) {item : α}
    (present : item ∈ list.agenda ∨ item ∈ list.found) : Reached successors initial item :=
  present.elim (passes.sound.saturating.waiting item) (passes.sound.saturating.reached item)

theorem Ends.sound (ends : Ends successors initial found) : Sound successors initial ⟨[], found⟩ :=
  Passes.sound ends

/-- A run ends with what can be reached, and with nothing else. -/
theorem Ends.mem_iff (ends : Ends successors initial found) (item : α) :
    item ∈ found ↔ Reached successors initial item :=
  ends.sound.saturating.mem_iff (List.nil_subset found) item

/-- In whatever order the items are taken, those that are found are the same, and none of them is found twice. -/
theorem Ends.perm {other : List α} (ends : Ends successors initial found) (nodup : other.Nodup)
    (exact : ∀ item, item ∈ other ↔ Reached successors initial item) : found.Perm other :=
  (List.perm_ext_iff_of_nodup ends.sound.nodup nodup).mpr fun item => (ends.mem_iff item).trans (exact item).symm

theorem Turn.drop_first {item : α} {rest : List α} (known : item ∈ found) :
    Turn successors ⟨item :: rest, found⟩ ⟨rest, found⟩ :=
  .drop [] known

theorem Turn.visit_first {item : α} {rest : List α} (new : item ∉ found) :
    Turn successors ⟨item :: rest, found⟩ ⟨successors item ++ rest, item :: found⟩ := by
  refine .visit List.mem_cons_self new (fun other waits => ?_) fun other => ?_
  · exact (List.mem_append.mp waits).symm.imp_left (List.mem_cons_of_mem item)
  · simp only [List.mem_cons, List.mem_append]
    tauto

/-- While something waits there is a turn. -/
theorem exists_turn (waits : list.agenda ≠ []) : ∃ next, Turn successors list next := by
  obtain ⟨agenda, found⟩ := list
  obtain ⟨item, rest, rfl⟩ := List.exists_cons_of_ne_nil waits
  by_cases known : item ∈ found
  · exact ⟨_, .drop_first known⟩
  · exact ⟨_, .visit_first known⟩

/-- How far a run still has to go: the items that are left to be found, and what waits. -/
def remaining (everything : List α) (list : Worklist α) : Nat ×ₗ Nat :=
  toLex (everything.length - list.found.length, list.agenda.length)

theorem Turn.remaining_lt (turn : Turn successors list next) (fits : next.found.length ≤ everything.length) :
    next.remaining everything < list.remaining everything := by
  cases turn with
  | drop =>
    refine Prod.Lex.right _ ?_
    simp
  | visit =>
    refine Prod.Lex.left _ _ ?_
    simp only [List.length_cons] at fits ⊢
    omega

/-- No run goes on for ever. -/
theorem acc_turn (inside : ∀ item, Reached successors initial item → item ∈ everything) {list : Worklist α}
    (sound : Sound successors initial list) : Acc (fun next list => Turn successors list next) list := by
  constructor
  intro next turn
  have soundNext := turn.sound sound
  have found : next.found ⊆ everything := fun item present => inside item (soundNext.saturating.reached item present)
  have fits : next.found.length ≤ everything.length := (List.subperm_of_subset soundNext.nodup found).length_le
  exact acc_turn inside soundNext
termination_by list.remaining everything
decreasing_by exact turn.remaining_lt fits

/-- So it can be run to its end. -/
theorem exists_ends (inside : ∀ item, Reached successors initial item → item ∈ everything) :
    ∃ found, Ends successors initial found := by
  have runs {list : Worklist α} (ends : Acc (fun next list => Turn successors list next) list) :
      ∃ found, Relation.ReflTransGen (Turn successors) list ⟨[], found⟩ := by
    induction ends with
    | intro list _ ih =>
      by_cases nothing : list.agenda = []
      · exact ⟨list.found, nothing ▸ .refl⟩
      · obtain ⟨next, turn⟩ := exists_turn nothing
        obtain ⟨found, rest⟩ := ih next turn
        exact ⟨found, .head turn rest⟩
  exact runs (acc_turn inside (sound_start successors initial))

end Worklist

/-- A list of distinct items that is its own worklist. What stands before the cursor has been looked at. -/
structure Scan (α : Type) where
  items : List α
  cursor : Nat

namespace Scan

variable {α : Type} {successors : α → List α} {initial everything found : List α} {scan after : Scan α}

/-- What waits stands behind the cursor, and what has been found before it. -/
def worklist (scan : Scan α) : Worklist α := ⟨scan.items.drop scan.cursor, (scan.items.take scan.cursor).reverse⟩

theorem worklist_append (before behind : List α) : worklist ⟨before ++ behind, before.length⟩ = ⟨behind, before.reverse⟩ := by
  simp [worklist]

variable [DecidableEq α]

/-- Puts a new item at the end. -/
def put (items : List α) (item : α) : List α := if item ∈ items then items else items ++ [item]

/-- Looks at the item at the cursor, if there is one, and puts its successors at the end. -/
def next (successors : α → List α) (scan : Scan α) : Option (Scan α) :=
  scan.items[scan.cursor]?.map fun item => ⟨(successors item).foldl put scan.items, scan.cursor + 1⟩

/-- The cursor moves on until it has left the list. -/
inductive Ends (successors : α → List α) : Scan α → List α → Prop where
  | done {scan : Scan α} (stopped : scan.next successors = none) : Ends successors scan scan.items
  | again {scan after : Scan α} {found : List α} (moved : scan.next successors = some after)
      (ends : Ends successors after found) : Ends successors scan found

/-- What is put at the end of distinct items is new, and nothing is left out. -/
theorem exists_foldl_put (items others : List α) (distinct : items.Nodup) :
    ∃ new, others.foldl put items = items ++ new ∧ (items ++ new).Nodup ∧ new ⊆ others ∧ others ⊆ items ++ new := by
  induction others generalizing items with
  | nil => exact ⟨[], by simpa using distinct⟩
  | cons other others ih =>
    rw [List.foldl_cons, put]
    split
    case isTrue present =>
      obtain ⟨new, same, nodup, inside, covered⟩ := ih items distinct
      exact ⟨new, same, nodup, List.subset_cons_of_subset other inside,
        List.cons_subset.mpr ⟨List.mem_append_left new present, covered⟩⟩
    case isFalse absent =>
      have longer : (items ++ [other]).Nodup := by
        rw [List.nodup_append]
        refine ⟨distinct, List.pairwise_singleton _ other, fun item present last listed same => absent ?_⟩
        rwa [← List.mem_singleton.mp listed, ← same]
      obtain ⟨new, same, nodup, inside, covered⟩ := ih (items ++ [other]) longer
      rw [List.append_assoc, List.singleton_append] at same nodup covered
      exact ⟨other :: new, same, nodup, List.cons_subset_cons other inside,
        List.cons_subset.mpr ⟨by simp, covered⟩⟩

/-- Looking at one item is a turn, and the items stay distinct. -/
theorem turn_of_next (moved : scan.next successors = some after) (distinct : scan.items.Nodup) :
    Worklist.Turn successors scan.worklist after.worklist ∧ after.items.Nodup := by
  obtain ⟨items, cursor⟩ := scan
  obtain ⟨item, here, rfl⟩ := Option.map_eq_some_iff.mp moved
  obtain ⟨new, longer, nodup, fresh, covered⟩ := exists_foldl_put items (successors item) distinct
  -- the list falls into what has been looked at, the item, and what waits
  obtain ⟨before, rest, rfl, rfl⟩ : ∃ before rest, items = before ++ item :: rest ∧ cursor = before.length := by
    obtain ⟨inside, same⟩ := List.getElem?_eq_some_iff.mp here
    refine ⟨items.take cursor, items.drop (cursor + 1), ?_, (List.length_take_of_le inside.le).symm⟩
    rw [← same, List.getElem_cons_drop, List.take_append_drop]
  have absent : item ∉ before.reverse := by
    rw [List.nodup_append] at distinct
    exact fun present => distinct.2.2 item (List.mem_reverse.mp present) item List.mem_cons_self rfl
  have moved : worklist ⟨before ++ item :: rest ++ new, before.length + 1⟩ = ⟨rest ++ new, item :: before.reverse⟩ := by
    have regrouped := worklist_append (before ++ [item]) (rest ++ new)
    simpa using regrouped
  dsimp only
  rw [longer, worklist_append, moved]
  refine ⟨.visit List.mem_cons_self absent (fun other waits => ?_) fun other present => ?_, nodup⟩
  · exact (List.mem_append.mp waits).imp (List.mem_cons_of_mem item) (fresh ·)
  · have listed : other ∈ before ++ item :: rest ++ new :=
      present.elim (List.mem_append_left new <| List.mem_append_right before ·) (covered ·)
    simp only [List.mem_append, List.mem_cons, List.mem_reverse] at listed ⊢
    tauto

/-- A list that has been scanned holds what a worklist ends with. -/
theorem Ends.passes (ends : Ends successors scan found) (distinct : scan.items.Nodup)
    (passes : Worklist.Passes successors initial scan.worklist) : Worklist.Ends successors initial found.reverse := by
  induction ends with
  | @done scan stopped =>
    have left : scan.items.length ≤ scan.cursor := List.getElem?_eq_none_iff.mp (Option.map_eq_none_iff.mp stopped)
    rwa [worklist, List.drop_of_length_le left, List.take_of_length_le left] at passes
  | again moved _ ih =>
    obtain ⟨turn, distinctAfter⟩ := turn_of_next moved distinct
    exact ih distinctAfter (passes.tail turn)

/-- Scanning from distinct items comes to an end, with what can be reached. -/
theorem exists_ends (inside : ∀ item, Reached successors initial item → item ∈ everything) (distinct : initial.Nodup) :
    ∃ found, Ends successors ⟨initial, 0⟩ found ∧ Worklist.Ends successors initial found.reverse := by
  have runs {list : Worklist α} (descends : Acc (fun next list => Worklist.Turn successors list next) list)
      (scan : Scan α) (same : scan.worklist = list) (distinct : scan.items.Nodup) : ∃ found, Ends successors scan found := by
    induction descends generalizing scan with
    | intro list _ ih =>
      subst same
      cases moved : scan.next successors with
      | none => exact ⟨scan.items, .done moved⟩
      | some after =>
        obtain ⟨turn, distinctAfter⟩ := turn_of_next moved distinct
        obtain ⟨found, ends⟩ := ih _ turn after rfl distinctAfter
        exact ⟨found, .again moved ends⟩
  have started : worklist ⟨initial, 0⟩ = Worklist.start initial := worklist_append [] initial
  obtain ⟨found, ends⟩ :=
    runs (Worklist.acc_turn inside (Worklist.sound_start successors initial)) ⟨initial, 0⟩ started distinct
  exact ⟨found, ends, ends.passes distinct (started ▸ .refl)⟩

end Scan

end Viable
