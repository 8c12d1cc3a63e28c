import Mathlib.Order.WellFounded

/-! Changes that are made in place. Every item of a list may change a state, and finds it as the items before it have
left it. Passes over the list are repeated until one of them changes nothing. -/

namespace Viable

variable {α σ ρ : Type} {change : α → σ → σ} {items : List α} {state final : σ}

/-- One pass over the items. -/
def pass (change : α → σ → σ) (items : List α) (state : σ) : σ := items.foldl (fun state item => change item state) state

/-- From one state the passes end with another. -/
inductive Settles (change : α → σ → σ) (items : List α) : σ → σ → Prop where
  | rest {state : σ} (unchanged : pass change items state = state) : Settles change items state state
  | again {state final : σ} (changed : pass change items state ≠ state)
      (settles : Settles change items (pass change items state) final) : Settles change items state final

/-- Whatever an item changes brings down the rank of the state, so that nothing is ever taken back. -/
def Lowers [LT ρ] (change : α → σ → σ) (items : List α) (rank : σ → ρ) : Prop :=
  ∀ item ∈ items, ∀ state, change item state = state ∨ rank (change item state) < rank state

theorem pass_cons (item : α) (items : List α) (state : σ) :
    pass change (item :: items) state = pass change items (change item state) := rfl

/-- A property that no item breaks is kept by a pass. -/
theorem pass_keeps {holds : σ → Prop} (kept : ∀ item ∈ items, ∀ state, holds state → holds (change item state))
    (before : holds state) : holds (pass change items state) := by
  induction items generalizing state with
  | nil => exact before
  | cons item items ih =>
    rw [List.forall_mem_cons] at kept
    exact ih kept.2 (kept.1 state before)

theorem Settles.keeps {holds : σ → Prop} (settles : Settles change items state final)
    (kept : ∀ item ∈ items, ∀ state, holds state → holds (change item state)) (before : holds state) : holds final := by
  induction settles with
  | rest => exact before
  | again _ _ ih => exact ih (pass_keeps kept before)

section rank

variable [Preorder ρ] {rank : σ → ρ}

/-- A pass lowers the rank, or none of the items has changed anything. -/
theorem Lowers.pass_cases (lowers : Lowers change items rank) (state : σ) :
    (pass change items state = state ∧ ∀ item ∈ items, change item state = state) ∨
      rank (pass change items state) < rank state := by
  induction items generalizing state with
  | nil => exact .inl ⟨rfl, fun _ absent => absurd absent List.not_mem_nil⟩
  | cons item items ih =>
    obtain ⟨first, later⟩ := List.forall_mem_cons.mp lowers
    rw [pass_cons]
    rcases first state with same | lower
    · rw [same]
      exact (ih later state).imp_left fun unchanged => ⟨unchanged.1, List.forall_mem_cons.mpr ⟨same, unchanged.2⟩⟩
    · rcases ih later (change item state) with unchanged | lowerStill
      · exact .inr (unchanged.1.symm ▸ lower)
      · exact .inr (lowerStill.trans lower)

theorem Lowers.unchanged (lowers : Lowers change items rank) (same : pass change items state = state) :
    ∀ item ∈ items, change item state = state := by
  rcases lowers.pass_cases state with unchanged | lower
  · exact unchanged.2
  · rw [same] at lower
    exact absurd lower (lt_irrefl _)

/-- In the end no item has anything left to change. -/
theorem Settles.stable (settles : Settles change items state final) (lowers : Lowers change items rank) :
    ∀ item ∈ items, change item final = final := by
  induction settles with
  | rest unchanged => exact lowers.unchanged unchanged
  | again _ _ ih => exact ih

/-- The passes end, since a rank cannot be lowered for ever. -/
theorem exists_settles [WellFoundedLT ρ] (lowers : Lowers change items rank) (state : σ) :
    ∃ final, Settles change items state final := by
  have descends : WellFounded (InvImage (· < ·) rank) := InvImage.wf rank wellFounded_lt
  induction state using descends.induction with
  | _ state ih =>
    rcases lowers.pass_cases state with unchanged | lower
    · exact ⟨state, .rest unchanged.1⟩
    · have changed : pass change items state ≠ state := fun same => lt_irrefl _ (same ▸ lower)
      obtain ⟨final, settles⟩ := ih _ lower
      exact ⟨final, .again changed settles⟩

end rank

end Viable
