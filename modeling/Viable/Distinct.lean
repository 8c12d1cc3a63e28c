import Std.Data.HashSet

/-! Lists without repetitions that answer membership through a hash index. -/

namespace Viable

/-- The index holds what the list holds, and the list holds it once. -/
structure Distinct (α : Type) [BEq α] [Hashable α] where
  toList : List α
  index : Std.HashSet α
  mem_index : ∀ item, item ∈ index ↔ item ∈ toList
  nodup : toList.Nodup

namespace Distinct

variable {α : Type} [BEq α] [LawfulBEq α] [Hashable α] [LawfulHashable α]

def empty : Distinct α where
  toList := []
  index := ∅
  mem_index := by simp
  nodup := .nil

/-- Puts a new item in front; one that is there already stays where it is. -/
def insert (items : Distinct α) (item : α) : Distinct α :=
  if known : item ∈ items.index then items
  else
    { toList := item :: items.toList
      index := items.index.insert item
      mem_index := fun other => by
        rw [Std.HashSet.mem_insert, items.mem_index, List.mem_cons, beq_iff_eq]
        exact or_congr_left eq_comm
      nodup := List.nodup_cons.mpr ⟨fun member => known ((items.mem_index item).mpr member), items.nodup⟩ }

theorem mem_insert (items : Distinct α) (item other : α) :
    other ∈ (items.insert item).toList ↔ other = item ∨ other ∈ items.toList := by
  unfold insert
  split
  case isTrue known =>
    have member := (items.mem_index item).mp known
    constructor
    · exact .inr
    · rintro (same | present)
      · exact same ▸ member
      · exact present
  case isFalse => simp

end Distinct

end Viable
