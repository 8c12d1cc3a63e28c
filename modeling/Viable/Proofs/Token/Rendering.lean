import Viable.Proofs.Token.Munch

/-! What is written with blanks between the texts is read as it was written. -/

namespace Viable.Lexicon

open Text

variable {lexicon : Lexicon} {keywords operators : List String}

/-- A non-empty literal can be a token if there are no blanks in the literals, and so can a character that is none. -/
theorem admits_ofLists (unbroken : (ofLists keywords operators).Unbroken) {text : List Char}
    (given : String.ofList text ∈ literalSet keywords operators ∨ ∃ char, text = [char] ∧ isBlank char = false) :
    (ofLists keywords operators).Admits text := by
  rcases given with literal | ⟨char, rfl, solid⟩
  · rw [← words_ofLists] at literal
    obtain ⟨something, member⟩ := literal
    rw [String.toList_ofList] at member
    refine ⟨.inl member, ?_, unbroken _ member⟩
    intro nothing
    exact something (congrArg String.ofList nothing)
  · exact ⟨.inr rfl, List.cons_ne_nil _ _, List.forall_mem_singleton.mpr solid⟩

/-- The texts of the tokens of a source come back when they are written with single blanks between them. -/
theorem map_text_tokenize_intercalate_tokenize (unbroken : lexicon.Unbroken) (source : String) :
    let texts := (lexicon.tokenize source).map (·.text)
    (lexicon.tokenize (" ".intercalate texts)).map (·.text) = texts := by
  intro texts
  obtain ⟨pieces, _, cut, _, _, placed⟩ := lexicon.exists_pieces source
  apply map_text_tokenize_intercalate unbroken
  have written : texts = pieces.map fun piece => String.ofList piece.text := by
    rw [← Piece.map_text_placed 0, ← placed]
  rw [written, List.forall_mem_map]
  intro piece member
  rw [String.toList_ofList]
  exact cut.admits unbroken piece member

/-- Non-empty literals and single characters are read as they were written, and where they were written, whatever
blanks are between them, in front of them and behind them, if there are no blanks in the literals. So the texts that
any source is cut into come back when they are joined by single blanks. -/
theorem tokenize_rendered (keywords operators : List String)
    (unbroken : ∀ literal ∈ keywords ++ operators, Solid literal.toList) :
    let lexicon := ofLists keywords operators
    (∀ (pieces : List Piece) (trailing : List Char),
      (∀ piece ∈ pieces, String.ofList piece.text ∈ literalSet keywords operators ∨
        ∃ char, piece.text = [char] ∧ isBlank char = false) →
      (∀ piece ∈ pieces, ∀ char ∈ piece.gap, isBlank char) → (∀ piece ∈ pieces.tail, piece.gap ≠ []) →
      (∀ char ∈ trailing, isBlank char) →
      let tokens := lexicon.tokenize (String.ofList (Piece.layOut pieces ++ trailing))
      tokens.map (·.text) = pieces.map (fun piece => String.ofList piece.text) ∧
      ∀ before piece after, pieces = before ++ piece :: after →
        let front := String.ofList (Piece.layOut before ++ piece.gap)
        let text := String.ofList piece.text
        tokens[before.length]? = some ⟨text, front.utf8ByteSize, (front ++ text).utf8ByteSize⟩) ∧
    ∀ source,
      let texts := (lexicon.tokenize source).map (·.text)
      (lexicon.tokenize (" ".intercalate texts)).map (·.text) = texts := by
  intro lexicon
  have solid : lexicon.Unbroken := List.forall_mem_map.mpr unbroken
  refine ⟨fun pieces trailing given blank apart behind => ?_, map_text_tokenize_intercalate_tokenize solid⟩
  have spaced : lexicon.Spaced pieces := ⟨blank, fun piece member => admits_ofLists solid (given piece member), apart⟩
  intro tokens
  have placed : tokens = Piece.placed 0 pieces := tokenize_layOut solid spaced behind
  refine ⟨by rw [placed, Piece.map_text_placed], fun before piece after whole => ?_⟩
  subst whole
  intro front text
  rw [placed, Piece.getElem?_placed, ← String.ofList_append, ← byteWidth_eq, ← byteWidth_eq, Nat.zero_add, Nat.zero_add]

/-- A literal in front of a longer one that it begins, a character that begins both, and a literal of three bytes. -/
def accented : List Piece :=
  [⟨['\u2003'], "do".toList⟩, ⟨[' ', '\n'], "done".toList⟩, ⟨['\t'], ['d']⟩, ⟨['\u00a0'], "é=".toList⟩]

theorem tokenize_accented :
    (∀ literal ∈ ["do", "done", ""] ++ ["é="], Solid literal.toList) ∧
    (∀ piece ∈ accented, String.ofList piece.text ∈ literalSet ["do", "done", ""] ["é="] ∨
      ∃ char, piece.text = [char] ∧ isBlank char = false) ∧
    (∀ piece ∈ accented, ∀ char ∈ piece.gap, isBlank char) ∧ (∀ piece ∈ accented.tail, piece.gap ≠ []) ∧
    let tokens := (ofLists ["do", "done", ""] ["é="]).tokenize "\u2003do \ndone\td\u00a0é= "
    tokens.map (·.text) = ["do", "done", "d", "é="] ∧ tokens[3]? = some ⟨"é=", 15, 18⟩ := by
  have unbroken : ∀ literal ∈ ["do", "done", ""] ++ ["é="], Solid literal.toList := by decide
  have given : ∀ piece ∈ accented, String.ofList piece.text ∈ literalSet ["do", "done", ""] ["é="] ∨
      ∃ char, piece.text = [char] ∧ isBlank char = false := by
    intro piece member
    simp only [accented, List.mem_cons, List.not_mem_nil, or_false] at member
    rcases member with rfl | rfl | rfl | rfl
    · exact .inl ⟨by decide, by decide⟩
    · exact .inl ⟨by decide, by decide⟩
    · exact .inr ⟨'d', rfl, by decide⟩
    · exact .inl ⟨by decide, by decide⟩
  have blank : ∀ piece ∈ accented, ∀ char ∈ piece.gap, isBlank char := by
    have blanks : isBlank '\u2003' ∧ (isBlank ' ' ∧ isBlank '\n') ∧ isBlank '\t' ∧ isBlank '\u00a0' := by decide
    simpa [accented] using blanks
  have apart : ∀ piece ∈ accented.tail, piece.gap ≠ [] := by decide
  have behind : ∀ char ∈ [' '], isBlank char := List.forall_mem_singleton.mpr rfl
  obtain ⟨rendered, _⟩ := tokenize_rendered ["do", "done", ""] ["é="] unbroken
  obtain ⟨texts, stands⟩ := rendered accented [' '] given blank apart behind
  exact ⟨unbroken, given, blank, apart, texts, stands (accented.take 3) ⟨['\u00a0'], "é=".toList⟩ [] rfl⟩

end Viable.Lexicon
