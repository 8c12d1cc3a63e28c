import Viable.Proofs.Token.Leading

/-! Texts that are written down with blanks between them come back as the tokens of what is written. -/

namespace Viable

open Text

namespace Text

/-- There is no blank in the text. -/
def Solid (text : List Char) : Prop := ∀ char ∈ text, isBlank char = false

instance : DecidablePred Solid := List.decidableBAll (isBlank · = false)

/-- Nothing is trimmed from a text that does not end with a blank. -/
theorem trimEnd_of_getLast? {text : List Char} (solid : ∀ last ∈ text.getLast?, isBlank last = false) :
    trimEnd text = text := by
  have kept : text.reverse.dropWhile isBlank = text.reverse := by
    cases same : text.reverse with
    | nil => rfl
    | cons last others =>
      have lastSolid := solid last (by rw [List.getLast?_eq_head?_reverse, same]; rfl)
      rw [List.dropWhile_cons_of_neg (by simp [lastSolid])]
  rw [trimEnd, kept, List.reverse_reverse]

theorem trimEnd_of_solid {text : List Char} (solid : Solid text) : trimEnd text = text :=
  trimEnd_of_getLast? fun last ends => solid last (List.mem_of_getLast? ends)

theorem trimEnd_append_of_ne_nil {front back : List Char} (kept : trimEnd back ≠ []) :
    trimEnd (front ++ back) = front ++ trimEnd back := by
  have remains : (back.reverse.dropWhile isBlank).isEmpty = false := by
    simpa [trimEnd, -List.dropWhile_eq_nil_iff] using kept
  rw [trimEnd, List.reverse_append, List.dropWhile_append, remains, trimEnd]
  simp

theorem trimEnd_append_of_blank {text gap : List Char} (blank : ∀ char ∈ gap, isBlank char) :
    trimEnd (text ++ gap) = trimEnd text := by
  rw [trimEnd, List.reverse_append, List.dropWhile_append_of_pos, trimEnd]
  simpa using blank

end Text

/-- A text, and the blanks in front of it. -/
structure Piece where
  gap : List Char
  text : List Char

namespace Piece

def layOut (pieces : List Piece) : List Char := pieces.flatMap fun piece => piece.gap ++ piece.text

@[simp] theorem layOut_nil : layOut [] = [] := rfl

@[simp] theorem layOut_cons (piece : Piece) (pieces : List Piece) :
    layOut (piece :: pieces) = piece.gap ++ piece.text ++ layOut pieces := rfl

/-- The pieces as tokens, from some byte on. -/
def placed : Nat → List Piece → List Token
  | _, [] => []
  | offset, piece :: pieces =>
    let start := offset + byteWidth piece.gap
    let stop := start + byteWidth piece.text
    ⟨String.ofList piece.text, start, stop⟩ :: placed stop pieces

theorem map_text_placed (offset : Nat) (pieces : List Piece) :
    (placed offset pieces).map (·.text) = pieces.map fun piece => String.ofList piece.text := by
  induction pieces generalizing offset with
  | nil => rfl
  | cons piece pieces ih => rw [placed, List.map_cons, List.map_cons, ih]

/-- Texts with a single blank between neighbours. -/
def singleSpaced : List String → List Piece
  | [] => []
  | text :: texts => ⟨[], text.toList⟩ :: texts.map fun text => ⟨[' '], text.toList⟩

theorem map_text_singleSpaced (texts : List String) :
    (singleSpaced texts).map (fun piece => String.ofList piece.text) = texts := by
  cases texts with
  | nil => rfl
  | cons text texts => simp [singleSpaced, Function.comp_def]

theorem layOut_singleSpaced (texts : List String) :
    layOut (singleSpaced texts) = (" ".intercalate texts).toList := by
  cases texts with
  | nil => rfl
  | cons text texts =>
    induction texts generalizing text with
    | nil => simp [singleSpaced]
    | cons next texts ih =>
      rw [String.intercalate_cons_cons, String.toList_append, ← ih]
      simp [singleSpaced]

end Piece

namespace Lexicon

variable {lexicon : Lexicon} {pieces : List Piece}

def Unbroken (lexicon : Lexicon) : Prop := ∀ literal ∈ lexicon.literals, Solid literal

instance (lexicon : Lexicon) : Decidable lexicon.Unbroken :=
  inferInstanceAs (Decidable (∀ literal ∈ lexicon.literals, Solid literal))

/-- What can be a token of the lexicon: a literal or a single character, and no blank in it. -/
def Admits (lexicon : Lexicon) (text : List Char) : Prop :=
  (text ∈ lexicon.literals ∨ text.length = 1) ∧ text ≠ [] ∧ Solid text

instance (lexicon : Lexicon) (text : List Char) : Decidable (lexicon.Admits text) :=
  inferInstanceAs (Decidable ((text ∈ lexicon.literals ∨ text.length = 1) ∧ text ≠ [] ∧ Solid text))

/-- No literal reaches from a text without blanks over a blank behind it. -/
theorem longest_isPrefix_of_blank (unbroken : lexicon.Unbroken) (text : List Char) {rest : List Char}
    (ahead : ∀ char ∈ rest.head?, isBlank char) : lexicon.longest (text ++ rest) <+: text := by
  rcases lexicon.longest_eq_nil_or_mem (text ++ rest) with none | ⟨member, begins⟩
  · exact none ▸ List.nil_prefix
  · rcases List.prefix_or_prefix_of_prefix begins (List.prefix_append text rest) with short | long
    · exact short
    · obtain ⟨more, same⟩ := long
      rw [← same, List.prefix_append_right_inj] at begins
      cases more with
      | nil => exact ⟨[], by simpa using same.symm⟩
      | cons char more =>
        obtain ⟨others, rfl⟩ := begins
        have solid := unbroken _ member char (same ▸ List.mem_append_right _ List.mem_cons_self)
        simp [ahead char rfl] at solid

/-- An admitted text is a token wherever a blank or nothing comes behind it. -/
theorem leading_of_admits (unbroken : lexicon.Unbroken) {first : Char} {tail rest : List Char}
    (admits : lexicon.Admits (first :: tail)) (ahead : ∀ char ∈ rest.head?, isBlank char) :
    lexicon.leading first (tail ++ rest) = first :: tail := by
  have begins := longest_isPrefix_of_blank unbroken (first :: tail) ahead
  have longest : first :: tail ∈ lexicon.literals →
      (first :: tail).length ≤ (lexicon.longest (first :: tail ++ rest)).length :=
    fun literal => length_le_longest literal (List.prefix_append _ _)
  rw [List.cons_append] at begins longest
  unfold leading
  split
  case h_1 none =>
    rw [none] at longest
    rcases admits.1 with literal | single
    · exact absurd (longest literal) (by simp)
    · rw [List.length_eq_zero_iff.mp (Nat.succ.inj single)]
  case h_2 some =>
    refine begins.eq_of_length_le ?_
    rcases admits.1 with literal | single
    · exact longest literal
    · rw [single]
      exact List.length_pos_iff.mpr some

/-- Blanks stand in the gaps and nowhere else, and there is one wherever two texts meet. -/
structure Spaced (lexicon : Lexicon) (pieces : List Piece) : Prop where
  blank : ∀ piece ∈ pieces, ∀ char ∈ piece.gap, isBlank char
  admits : ∀ piece ∈ pieces, lexicon.Admits piece.text
  apart : ∀ piece ∈ pieces.tail, piece.gap ≠ []

theorem Spaced.tail {piece : Piece} (spaced : lexicon.Spaced (piece :: pieces)) : lexicon.Spaced pieces where
  blank := fun other member => spaced.blank other (List.mem_cons_of_mem _ member)
  admits := fun other member => spaced.admits other (List.mem_cons_of_mem _ member)
  apart := fun other member => spaced.apart other (List.mem_of_mem_tail member)

/-- What comes behind a piece begins with a blank. -/
theorem Spaced.ahead {piece : Piece} (spaced : lexicon.Spaced (piece :: pieces)) :
    ∀ char ∈ (Piece.layOut pieces).head?, isBlank char := by
  cases pieces with
  | nil => simp
  | cons next pieces =>
    obtain ⟨blank, gap, same⟩ := List.exists_cons_of_ne_nil (spaced.apart next List.mem_cons_self)
    have isBlank := spaced.blank next (by simp) blank (by simp [same])
    simpa [same] using isBlank

theorem tokensFrom_layOut (unbroken : lexicon.Unbroken) (spaced : lexicon.Spaced pieces) (offset : Nat) :
    lexicon.tokensFrom offset (Piece.layOut pieces) = Piece.placed offset pieces := by
  induction pieces generalizing offset with
  | nil => exact tokensFrom_of_blank (by simp) offset
  | cons piece pieces ih =>
    obtain ⟨gap, text⟩ := piece
    have admits := spaced.admits _ List.mem_cons_self
    obtain ⟨first, tail, rfl⟩ := List.exists_cons_of_ne_nil admits.2.1
    rw [Piece.layOut_cons, List.append_assoc, List.cons_append,
      tokensFrom_append (spaced.blank _ List.mem_cons_self) (admits.2.2 first List.mem_cons_self)
        (leading_of_admits unbroken admits spaced.ahead)]
    exact congrArg _ (ih spaced.tail _)

theorem Spaced.trimEnd_layOut (spaced : lexicon.Spaced pieces) :
    trimEnd (Piece.layOut pieces) = Piece.layOut pieces := by
  induction pieces with
  | nil => rfl
  | cons piece pieces ih =>
    have admits := spaced.admits _ List.mem_cons_self
    have text := trimEnd_of_solid admits.2.2
    have own : trimEnd (piece.gap ++ piece.text) = piece.gap ++ piece.text := by
      rw [trimEnd_append_of_ne_nil (by rw [text]; exact admits.2.1), text]
    rw [Piece.layOut_cons]
    by_cases last : Piece.layOut pieces = []
    · rw [last, List.append_nil, own]
    · have back := ih spaced.tail
      rw [trimEnd_append_of_ne_nil (by rwa [back]), back]

/-- Each text comes back as a token, where it was written. -/
theorem tokenize_layOut (unbroken : lexicon.Unbroken) (spaced : lexicon.Spaced pieces) {trailing : List Char}
    (blank : ∀ char ∈ trailing, isBlank char) :
    lexicon.tokenize (String.ofList (Piece.layOut pieces ++ trailing)) = Piece.placed 0 pieces := by
  rw [tokenize, String.toList_ofList, trimEnd_append_of_blank blank, spaced.trimEnd_layOut,
    tokensFrom_layOut unbroken spaced]

theorem spaced_singleSpaced {texts : List String} (admits : ∀ text ∈ texts, lexicon.Admits text.toList) :
    lexicon.Spaced (Piece.singleSpaced texts) := by
  cases texts with
  | nil => exact ⟨by simp [Piece.singleSpaced], by simp [Piece.singleSpaced], by simp [Piece.singleSpaced]⟩
  | cons text texts =>
    refine ⟨?_, ?_, ?_⟩
    · simp only [Piece.singleSpaced, List.forall_mem_cons, List.forall_mem_map, List.mem_singleton, forall_eq]
      exact ⟨by simp, fun _ _ => by decide⟩
    · simpa [Piece.singleSpaced] using admits
    · simp [Piece.singleSpaced]

/-- Texts joined by single blanks come back as they are. -/
theorem map_text_tokenize_intercalate (unbroken : lexicon.Unbroken) {texts : List String}
    (admits : ∀ text ∈ texts, lexicon.Admits text.toList) :
    (lexicon.tokenize (" ".intercalate texts)).map (·.text) = texts := by
  have line : " ".intercalate texts = String.ofList (Piece.layOut (Piece.singleSpaced texts) ++ []) := by
    rw [List.append_nil, Piece.layOut_singleSpaced, String.ofList_toList]
  rw [line, tokenize_layOut unbroken (spaced_singleSpaced admits) (by simp), Piece.map_text_placed,
    Piece.map_text_singleSpaced]

end Lexicon

end Viable
