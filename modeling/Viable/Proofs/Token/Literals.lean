import Viable.Proofs.Token.Spans

/-! Literals that stand somewhere inside a text without blanks, and what is cut from the text because of them. -/

namespace Viable.Lexicon

open Text

variable {lexicon : Lexicon} {first : Char} {rest text : List Char}

/-- Without blanks, the next token begins at once. -/
theorem tokensFrom_cons (solid : isBlank first = false) (offset : Nat) :
    lexicon.tokensFrom offset (first :: rest) =
      let text := lexicon.leading first rest
      ⟨String.ofList text, offset, offset + byteWidth text⟩ ::
        lexicon.tokensFrom (offset + byteWidth text) ((first :: rest).drop text.length) := by
  have found : (first :: rest).dropWhile isBlank = first :: rest := by simp [solid]
  rw [tokensFrom_of_found found, List.takeWhile_cons_of_neg (by simp [solid])]
  rfl

/-- A text without blanks and without a literal anywhere in it is cut into its characters. -/
theorem map_text_tokensFrom_of_absent (solid : Solid text)
    (absent : ∀ literal ∈ lexicon.literals, literal <:+: text → literal = []) (offset : Nat) :
    (lexicon.tokensFrom offset text).map (·.text) = text.map String.singleton := by
  induction text generalizing offset with
  | nil =>
    rw [tokensFrom_of_blank (by simp)]
    rfl
  | cons first rest ih =>
    obtain ⟨first_solid, rest_solid⟩ := List.forall_mem_cons.mp solid
    have behind := ih rest_solid fun literal member inside => absent literal member (List.infix_cons inside)
    have single : lexicon.leading first rest = [first] := by
      rcases lexicon.leading_cases first rest with ⟨single, _⟩ | ⟨member, begins, _⟩
      · exact single
      · exact absurd (absent _ member begins.isInfix) (lexicon.leading_ne_nil first rest)
    rw [tokensFrom_cons first_solid, single]
    exact congrArg (String.singleton first :: ·) (behind _)

/-- Wherever a literal stands in a text without blanks, one of the tokens is a literal, though perhaps not this one. -/
theorem exists_literal_of_infix (solid : Solid text) {literal : List Char} (member : literal ∈ lexicon.literals)
    (something : literal ≠ []) (inside : literal <:+: text) (offset : Nat) :
    ∃ token ∈ lexicon.tokensFrom offset text, token.text.toList ∈ lexicon.literals := by
  induction text generalizing offset with
  | nil => exact absurd (List.infix_nil.mp inside) something
  | cons first rest ih =>
    obtain ⟨first_solid, rest_solid⟩ := List.forall_mem_cons.mp solid
    rw [tokensFrom_cons first_solid]
    rcases lexicon.leading_cases first rest with ⟨single, none⟩ | ⟨listed, _⟩
    · -- No literal begins here, so that the given one stands further behind.
      have behind : literal <:+: rest :=
        (List.infix_cons_iff.mp inside).resolve_left (mt (none literal member) something)
      rw [single]
      obtain ⟨token, present, listed⟩ := ih rest_solid behind _
      exact ⟨token, List.mem_cons_of_mem _ present, listed⟩
    · refine ⟨_, List.mem_cons_self, ?_⟩
      rwa [String.toList_ofList]

end Viable.Lexicon
