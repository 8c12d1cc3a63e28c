import Viable.Distinct

/-! Everything that can be reached from some items by steps of a successor function. -/

namespace Viable

variable {α : Type} [BEq α] [LawfulBEq α] [Hashable α] [LawfulHashable α]

/-- Finds the items of the agenda that are new, and after each of them its successors. -/
def saturate.extend (successors : α → List α) : Nat → List α → Distinct α → Distinct α
  | 0, _, found => found
  | room + 1, agenda, found =>
    match agenda.dropWhile (· ∈ found.index) with
    | [] => found
    | item :: rest => extend successors room (successors item ++ rest) (found.insert item)

/-- The items reachable from `initial`, without repetitions. Each round finds a new item, so `room`
rounds suffice when no more than `room` items can be reached. -/
def saturate (successors : α → List α) (room : Nat) (initial : List α) : List α :=
  (saturate.extend successors room initial .empty).toList

end Viable
