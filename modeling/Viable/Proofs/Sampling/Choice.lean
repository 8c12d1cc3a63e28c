import Mathlib.Algebra.Group.Nat.Defs
import Viable.Chance.Source

/-! A choice among some items is one of them, whatever words the source hands out. -/

namespace Viable.Chance

variable {σ α β : Type}

/-- What comes behind a step that succeeds is run on what the step leaves of the source. -/
theorem run_bind_of_some {first : OptionT (StateM σ) α} {next : α → OptionT (StateM σ) β} {source rest : σ}
    {value : α} (succeeds : first.run.run source = (some value, rest)) :
    (first >>= next).run.run source = (next value).run.run rest := by
  simp only [OptionT.run_bind, Option.elimM, StateT.run_bind, succeeds]
  rfl

theorem run_bind_of_none {first : OptionT (StateM σ) α} {next : α → OptionT (StateM σ) β} {source rest : σ}
    (fails : first.run.run source = (none, rest)) : (first >>= next).run.run source = (none, rest) := by
  simp only [OptionT.run_bind, Option.elimM, StateT.run_bind, fails]
  rfl

/-- A step and what comes behind it succeed when both of them do. -/
theorem run_bind_eq_some_iff {first : OptionT (StateM σ) α} {next : α → OptionT (StateM σ) β} {source rest : σ}
    {value : β} : (first >>= next).run.run source = (some value, rest) ↔
      ∃ inner between, first.run.run source = (some inner, between) ∧
        (next inner).run.run between = (some value, rest) := by
  constructor
  · intro succeeds
    cases done : first.run.run source with
    | mk answer between =>
      cases answer with
      | none =>
        rw [run_bind_of_none done] at succeeds
        cases succeeds
      | some inner => exact ⟨inner, between, rfl, (run_bind_of_some done).symm.trans succeeds⟩
  · intro succeeds
    obtain ⟨inner, between, done, behind⟩ := succeeds
    exact (run_bind_of_some done).trans behind

theorem run_pure_eq_some_iff {source rest : σ} {given value : α} :
    (pure given : OptionT (StateM σ) α).run.run source = (some value, rest) ↔ given = value ∧ source = rest := by
  change (some given, source) = (some value, rest) ↔ _
  rw [Prod.mk.injEq, Option.some_inj]

variable [Source σ]

/-- The high half of a word times `count` is below `count`. -/
theorem word_mul_div_lt (word : UInt32) {count : Nat} (positive : 0 < count) :
    word.toNat * count / 2 ^ 32 < count := by
  rw [Nat.div_lt_iff_lt_mul (by decide), Nat.mul_comm count]
  exact Nat.mul_lt_mul_of_pos_right word.toNat_lt positive

/-- One word decides, or the draw goes on behind it. -/
theorem run_draw_succ (count patience : Nat) (source : σ) :
    (draw count (patience + 1)).run source =
      let (word, rest) := Source.next source
      if word.toNat * count % 2 ^ 32 ≤ zone count then (word.toNat * count / 2 ^ 32, rest)
      else (draw count patience).run rest := by
  dsimp only
  split
  case isTrue decided => exact congrArg (StateT.run · (Source.next source).2) (if_pos decided)
  case isFalse undecided => exact congrArg (StateT.run · (Source.next source).2) (if_neg undecided)

theorem draw_lt {count : Nat} (positive : 0 < count) (patience : Nat) (source : σ) :
    ((draw count patience).run source).1 < count := by
  induction patience generalizing source with
  | zero => exact positive
  | succ patience ih =>
    rw [run_draw_succ]
    dsimp only
    split
    · exact word_mul_div_lt _ positive
    · exact ih _

theorem below_lt {count : Nat} (positive : 0 < count) (source : σ) : ((below count).run source).1 < count :=
  draw_lt positive (Source.patience source) source

/-- What is chosen stands where the number that is drawn says. -/
theorem run_choose {items : List α} (nonempty : items ≠ []) (source : σ) :
    (choose items).run.run source =
      (items[((below items.length).run source).1]?, ((below items.length).run source).2) := by
  have inside := below_lt (List.length_pos_iff.mpr nonempty) source
  have drawn : (OptionT.lift (below items.length) : OptionT (StateM σ) Nat).run.run source =
    (some ((below items.length).run source).1, ((below items.length).run source).2) := rfl
  rw [choose, if_neg (by simpa using nonempty), run_bind_of_some drawn]
  rw [List.getElem?_eq_getElem inside]
  rfl

theorem exists_choose {items : List α} (nonempty : items ≠ []) (source : σ) :
    ∃ item ∈ items, ∃ rest, (choose items).run.run source = (some item, rest) := by
  have inside := below_lt (List.length_pos_iff.mpr nonempty) source
  refine ⟨_, List.getElem_mem inside, ((below items.length).run source).2, ?_⟩
  rw [run_choose nonempty, List.getElem?_eq_getElem inside]

theorem choose_nil (source : σ) : (choose ([] : List α)).run.run source = (none, source) := rfl

theorem mem_of_run_choose {items : List α} {source rest : σ} {item : α}
    (chosen : (choose items).run.run source = (some item, rest)) : item ∈ items := by
  by_cases empty : items = []
  · rw [empty, choose_nil] at chosen
    cases chosen
  · obtain ⟨other, member, after, same⟩ := exists_choose empty source
    cases same.symm.trans chosen
    exact member

end Viable.Chance
