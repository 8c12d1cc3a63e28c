import Mathlib.Data.List.Perm.Subperm
import Mathlib.Data.List.TakeWhile
import Viable.Saturation

/-! A saturation with enough room finds everything that can be reached, and nothing else. -/

namespace Viable

/-- Reached from the initial items in any number of steps. -/
inductive Reached {α : Type} (successors : α → List α) (initial : List α) : α → Prop where
  | initial {item : α} (member : item ∈ initial) : Reached successors initial item
  | step {item other : α} (reached : Reached successors initial item) (successor : other ∈ successors item) :
      Reached successors initial other

variable {α : Type}

/-- Without repetitions, a list that is as long as one it is part of has all of its members. -/
theorem subset_of_length_le {found everything : List α} (nodup : found.Nodup) (inside : found ⊆ everything)
    (full : everything.length ≤ found.length) : everything ⊆ found :=
  ((List.subperm_of_subset nodup inside).perm_of_length_le full).symm.subset

/-- The state of a saturation: whatever is one step away from what has been found is found or waits. -/
structure Saturating (successors : α → List α) (initial agenda found : List α) : Prop where
  waiting : ∀ item ∈ agenda, Reached successors initial item
  reached : ∀ item ∈ found, Reached successors initial item
  initially : ∀ item ∈ initial, item ∈ agenda ∨ item ∈ found
  closed : ∀ item ∈ found, ∀ other ∈ successors item, other ∈ agenda ∨ other ∈ found

namespace Saturating

variable {successors : α → List α} {initial agenda found : List α}

theorem start (successors : α → List α) (initial : List α) : Saturating successors initial initial [] where
  waiting _ member := .initial member
  reached _ absent := absurd absent List.not_mem_nil
  initially _ member := .inl member
  closed _ absent := absurd absent List.not_mem_nil

/-- When nothing new waits, exactly what can be reached has been found. -/
theorem mem_iff (state : Saturating successors initial agenda found) (stale : agenda ⊆ found) (item : α) :
    item ∈ found ↔ Reached successors initial item := by
  constructor
  · exact state.reached item
  · intro reached
    induction reached with
    | initial member => exact (state.initially _ member).elim (stale ·) id
    | step _ successor ih => exact (state.closed _ ih _ successor).elim (stale ·) id

/-- When as much has been found as can be reached, nothing new waits. -/
theorem subset_of_full {everything : List α} (state : Saturating successors initial agenda found) (nodup : found.Nodup)
    (inside : ∀ item, Reached successors initial item → item ∈ everything) (full : everything.length ≤ found.length) :
    agenda ⊆ found := by
  have all := subset_of_length_le nodup (fun other present => inside other (state.reached other present)) full
  exact fun other waits => all (inside other (state.waiting other waits))

/-- What has been found need not wait any more. -/
theorem drop {agenda' : List α} (state : Saturating successors initial agenda found)
    (fewer : agenda' ⊆ agenda) (known : ∀ other ∈ agenda, other ∈ agenda' ∨ other ∈ found) :
    Saturating successors initial agenda' found := by
  have later (other : α) (present : other ∈ agenda ∨ other ∈ found) : other ∈ agenda' ∨ other ∈ found :=
    present.elim (known other) .inr
  exact ⟨fun other waits => state.waiting other (fewer waits), state.reached,
    fun other member => later other (state.initially other member),
    fun item present other successor => later other (state.closed item present other successor)⟩

/-- One of the items that wait is found, and its successors wait from then on. -/
theorem next {agenda' found' : List α} {item : α} (state : Saturating successors initial agenda found)
    (waits : item ∈ agenda) (waiting : ∀ other ∈ agenda', other ∈ agenda ∨ other ∈ successors item)
    (extended : ∀ other, other ∈ found' ↔ other = item ∨ other ∈ found)
    (covered : ∀ other, other ∈ agenda ∨ other ∈ successors item → other ∈ agenda' ∨ other ∈ found') :
    Saturating successors initial agenda' found' := by
  have itemReached := state.waiting item waits
  have later (other : α) (present : other ∈ agenda ∨ other ∈ found) : other ∈ agenda' ∨ other ∈ found' := by
    rcases present with before | present
    · exact covered other (.inl before)
    · exact .inr ((extended other).mpr (.inr present))
  refine ⟨fun other waits => ?_, fun other present => ?_, fun other member => later other (state.initially other member),
    fun other present => ?_⟩
  · rcases waiting other waits with before | successor
    · exact state.waiting other before
    · exact .step itemReached successor
  · rcases (extended other).mp present with same | present
    · exact same ▸ itemReached
    · exact state.reached other present
  · rcases (extended other).mp present with same | present
    · exact fun further successor => covered further (.inr (same ▸ successor))
    · exact fun further successor => later further (state.closed other present further successor)

end Saturating

variable [BEq α] [LawfulBEq α] [Hashable α] [LawfulHashable α]

theorem Distinct.length_insert (items : Distinct α) {item : α} (absent : item ∉ items.toList) :
    (items.insert item).toList.length = items.toList.length + 1 := by
  have unknown : item ∉ items.index := fun known => absent ((items.mem_index item).mp known)
  simp [Distinct.insert, unknown]

/-- The first new item of the agenda is found, and its successors wait in front of the others. -/
theorem Saturating.find {successors : α → List α} {initial agenda rest : List α} {found : Distinct α} {first : α}
    (state : Saturating successors initial agenda found.toList)
    (remaining : agenda.dropWhile (· ∈ found.index) = first :: rest) :
    first ∉ found.toList ∧ Saturating successors initial (successors first ++ rest) (found.insert first).toList := by
  have splits := List.takeWhile_append_dropWhile (p := (· ∈ found.index)) (l := agenda)
  rw [remaining] at splits
  have known : agenda.takeWhile (· ∈ found.index) ⊆ found.toList := by
    intro other early
    have indexed := List.mem_takeWhile_imp early
    exact (found.mem_index other).mp (by simpa using indexed)
  have absent : first ∉ found.toList := by
    have unknown := List.head_dropWhile_not (· ∈ found.index) (l := agenda) (by simp [remaining])
    simp only [remaining, List.head_cons, decide_eq_false_iff_not] at unknown
    exact fun present => unknown ((found.mem_index first).mpr present)
  have fresh : Saturating successors initial (first :: rest) found.toList := by
    refine state.drop (fun other waits => splits ▸ List.mem_append_right _ waits) fun other waits => ?_
    rw [← splits] at waits
    exact (List.mem_append.mp waits).symm.imp_right (known ·)
  refine ⟨absent, fresh.next List.mem_cons_self (fun other waits => ?_) (found.mem_insert first) fun other present => ?_⟩
  · exact (List.mem_append.mp waits).symm.imp_left (List.mem_cons_of_mem first)
  · rw [List.mem_append, found.mem_insert]
    rcases present with waits | successor
    · exact (List.mem_cons.mp waits).elim (.inr <| .inl ·) (.inl <| .inr ·)
    · exact .inl (.inl successor)

omit [LawfulHashable α] in
/-- The agenda is dropped as a whole exactly when nothing new waits. -/
theorem Distinct.dropWhile_eq_nil_iff {agenda : List α} {found : Distinct α} :
    agenda.dropWhile (· ∈ found.index) = [] ↔ agenda ⊆ found.toList := by
  simp only [List.dropWhile_eq_nil_iff, decide_eq_true_eq, found.mem_index, List.subset_def]

/-- With room for whatever can be reached, the rounds end with nothing new on the agenda. -/
theorem mem_extend_iff {successors : α → List α} {initial everything : List α}
    (inside : ∀ item, Reached successors initial item → item ∈ everything) (room : Nat) (agenda : List α)
    (found : Distinct α) (state : Saturating successors initial agenda found.toList)
    (enough : everything.length ≤ room + found.toList.length) (item : α) :
    item ∈ (saturate.extend successors room agenda found).toList ↔ Reached successors initial item := by
  induction room generalizing agenda found with
  | zero => exact state.mem_iff (state.subset_of_full found.nodup inside (by omega)) item
  | succ room ih =>
    unfold saturate.extend
    split
    case h_1 nothing => exact state.mem_iff (Distinct.dropWhile_eq_nil_iff.mp nothing) item
    case h_2 first rest remaining =>
      obtain ⟨absent, after⟩ := state.find remaining
      apply ih _ _ after
      rw [found.length_insert absent]
      omega

/-- Beyond what can be reached, room makes no difference. -/
theorem extend_add {successors : α → List α} {initial everything : List α}
    (inside : ∀ item, Reached successors initial item → item ∈ everything) (room more : Nat) (agenda : List α)
    (found : Distinct α) (state : Saturating successors initial agenda found.toList)
    (enough : everything.length ≤ room + found.toList.length) :
    saturate.extend successors (room + more) agenda found = saturate.extend successors room agenda found := by
  induction room generalizing agenda found with
  | zero =>
    have stale := Distinct.dropWhile_eq_nil_iff.mpr (state.subset_of_full found.nodup inside (by omega))
    cases more with
    | zero => rfl
    | succ more => simp only [saturate.extend, stale]
  | succ room ih =>
    rw [Nat.add_right_comm, saturate.extend, saturate.extend]
    split
    case h_1 => rfl
    case h_2 first rest remaining =>
      obtain ⟨absent, after⟩ := state.find remaining
      apply ih _ _ after
      rw [found.length_insert absent]
      omega

theorem mem_saturate_iff {successors : α → List α} {initial everything : List α} {room : Nat}
    (inside : ∀ item, Reached successors initial item → item ∈ everything) (enough : everything.length ≤ room)
    (item : α) : item ∈ saturate successors room initial ↔ Reached successors initial item :=
  mem_extend_iff inside room initial .empty (.start successors initial) (by simpa [Distinct.empty] using enough) item

/-- The rounds end by themselves. -/
theorem saturate_add {successors : α → List α} {initial everything : List α} {room : Nat}
    (inside : ∀ item, Reached successors initial item → item ∈ everything) (enough : everything.length ≤ room)
    (more : Nat) : saturate successors (room + more) initial = saturate successors room initial := by
  rw [saturate, saturate, extend_add inside room more initial .empty (.start successors initial)]
  simpa [Distinct.empty] using enough

theorem nodup_saturate (successors : α → List α) (room : Nat) (initial : List α) :
    (saturate successors room initial).Nodup :=
  (saturate.extend successors room initial .empty).nodup

end Viable
