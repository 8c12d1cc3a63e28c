import Mathlib.Data.List.Basic
import Mathlib.Data.List.Infix
import Mathlib.Data.List.TakeWhile
import Viable.Token

/-! The token at the beginning of a text is the longest literal there, and a text is cut into tokens one such
beginning after the other. -/

namespace Viable.Lexicon

open Text

variable {lexicon : Lexicon}

/-- The longer one of two literals, if the second is where the text begins. -/
def longer (source best literal : List Char) : List Char :=
  if best.length < literal.length && literal.isPrefixOf source then literal else best

theorem longer_cases (source best literal : List Char) :
    longer source best literal = literal ∧ best.length < literal.length ∧ literal <+: source ∨
      longer source best literal = best ∧ (literal <+: source → literal.length ≤ best.length) := by
  unfold longer
  split
  case isTrue both =>
    simp only [Bool.and_eq_true, decide_eq_true_eq, List.isPrefixOf_iff_prefix] at both
    exact .inl ⟨rfl, both⟩
  case isFalse neither =>
    simp only [Bool.and_eq_true, decide_eq_true_eq, List.isPrefixOf_iff_prefix, not_and] at neither
    exact .inr ⟨rfl, fun begins => Nat.not_lt.mp fun longer => neither longer begins⟩

/-- The longest of some literals is the one to begin with or one of them, and none of them beats it. -/
theorem foldl_longer_spec (source best : List Char) (literals : List (List Char)) :
    (literals.foldl (longer source) best = best ∨
      literals.foldl (longer source) best ∈ literals ∧ literals.foldl (longer source) best <+: source) ∧
    best.length ≤ (literals.foldl (longer source) best).length ∧
    ∀ literal ∈ literals, literal <+: source → literal.length ≤ (literals.foldl (longer source) best).length := by
  induction literals generalizing best with
  | nil => simp
  | cons literal literals ih =>
    obtain ⟨which, grows, beats⟩ := ih (longer source best literal)
    rw [List.foldl_cons]
    rcases longer_cases source best literal with ⟨same, gains, begins⟩ | ⟨same, short⟩
    · rw [same] at which grows beats ⊢
      refine ⟨.inr ?_, by omega, List.forall_mem_cons.mpr ⟨fun _ => grows, beats⟩⟩
      rcases which with same | ⟨member, begins⟩
      · rw [same]
        exact ⟨List.mem_cons_self, begins⟩
      · exact ⟨List.mem_cons_of_mem _ member, begins⟩
    · rw [same] at which grows beats ⊢
      refine ⟨?_, grows, List.forall_mem_cons.mpr ⟨fun begins => (short begins).trans grows, beats⟩⟩
      exact which.imp_right fun ⟨member, begins⟩ => ⟨List.mem_cons_of_mem _ member, begins⟩

theorem longest_eq_nil_or_mem (source : List Char) :
    lexicon.longest source = [] ∨ lexicon.longest source ∈ lexicon.literals ∧ lexicon.longest source <+: source :=
  (foldl_longer_spec source [] lexicon.literals).1

theorem length_le_longest {source literal : List Char} (member : literal ∈ lexicon.literals)
    (begins : literal <+: source) : literal.length ≤ (lexicon.longest source).length :=
  (foldl_longer_spec source [] lexicon.literals).2.2 literal member begins

/-- No literal begins with the first character, which is cut off alone then, or the longest is cut off that does. -/
theorem leading_cases (lexicon : Lexicon) (first : Char) (rest : List Char) :
    lexicon.leading first rest = [first] ∧ (∀ literal ∈ lexicon.literals, literal <+: first :: rest → literal = []) ∨
      lexicon.leading first rest ∈ lexicon.literals ∧ lexicon.leading first rest <+: first :: rest ∧
        ∀ literal ∈ lexicon.literals, literal <+: first :: rest →
          literal.length ≤ (lexicon.leading first rest).length := by
  unfold leading
  split
  case h_1 none =>
    refine .inl ⟨rfl, fun literal member begins => ?_⟩
    have shorter := length_le_longest member begins
    rw [none] at shorter
    exact List.length_eq_zero_iff.mp (Nat.le_zero.mp shorter)
  case h_2 some =>
    obtain ⟨member, begins⟩ := (lexicon.longest_eq_nil_or_mem (first :: rest)).resolve_left some
    exact .inr ⟨member, begins, fun literal listed other => length_le_longest listed other⟩

/-- Where nothing but blanks is left, no token is. -/
theorem tokensFrom_of_blank {source : List Char} (blank : ∀ char ∈ source, isBlank char) (offset : Nat) :
    lexicon.tokensFrom offset source = [] := by
  rw [tokensFrom]
  split
  case h_1 => rfl
  case h_2 first rest remaining =>
    rw [List.dropWhile_eq_nil_iff.mpr blank] at remaining
    cases remaining

/-- Blanks are skipped up to the first character that is none. -/
theorem dropWhile_gap {gap : List Char} {first : Char} (blank : ∀ char ∈ gap, isBlank char)
    (solid : isBlank first = false) (rest : List Char) :
    (gap ++ first :: rest).dropWhile isBlank = first :: rest := by
  rw [List.dropWhile_append_of_pos blank]
  simp [solid]

theorem takeWhile_gap {gap : List Char} {first : Char} (blank : ∀ char ∈ gap, isBlank char)
    (solid : isBlank first = false) (rest : List Char) : (gap ++ first :: rest).takeWhile isBlank = gap := by
  rw [List.takeWhile_append_of_pos blank]
  simp [solid]

/-- Behind blanks a token is cut off, and the rest is cut from its end on. -/
theorem tokensFrom_append {gap tail rest : List Char} {first : Char} (blank : ∀ char ∈ gap, isBlank char)
    (solid : isBlank first = false) (leads : lexicon.leading first (tail ++ rest) = first :: tail) (offset : Nat) :
    lexicon.tokensFrom offset (gap ++ first :: (tail ++ rest)) =
      let start := offset + byteWidth gap
      let stop := start + byteWidth (first :: tail)
      ⟨String.ofList (first :: tail), start, stop⟩ :: lexicon.tokensFrom stop rest := by
  have skipped := dropWhile_gap blank solid (tail ++ rest)
  rw [tokensFrom]
  split
  case h_1 remaining =>
    rw [skipped] at remaining
    cases remaining
  case h_2 head others remaining =>
    rw [skipped] at remaining
    cases remaining
    simp [leads, takeWhile_gap blank solid]

end Viable.Lexicon
