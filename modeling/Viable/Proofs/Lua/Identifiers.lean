import Viable.Lua.Grammar
import Viable.Proofs.Grammar.Combinators
import Viable.Proofs.Recovery.Unrefused
import Viable.Proofs.Token.Literals

/-! Which words are names. Names are put together from single characters, and the lexicon knows of no boundaries
between words, so a keyword anywhere inside a word is cut out of it. -/

namespace Viable.Lua

open Text

variable {tokens : List String} {source : String} {char : Char}

theorem derives_words_iff {name : String} {texts : List String}
    (alone : productions.filter (·.head = .given name) = (words texts).map (⟨.given name, ·⟩)) :
    Derives productions [phrase name] tokens ↔ ∃ text ∈ texts, tokens = [text] := by
  rw [phrase, (DefinedBy.of_filter alone).derives_choice_iff]
  constructor
  · rintro ⟨body, member, derives⟩
    obtain ⟨text, listed, rfl⟩ := List.mem_map.mp member
    have spelled : Derives productions (spell [text]) tokens := derives
    exact ⟨text, listed, spelled.eq_of_spell⟩
  · rintro ⟨text, listed, rfl⟩
    exact ⟨[word text], List.mem_map_of_mem listed, .spell [text]⟩

theorem derives_letter_iff : Derives productions [phrase "letter"] tokens ↔ ∃ text ∈ letters, tokens = [text] :=
  derives_words_iff (by decide +kernel)

theorem derives_digit_iff : Derives productions [phrase "digit"] tokens ↔ ∃ text ∈ digits, tokens = [text] :=
  derives_words_iff (by decide +kernel)

/-- The name of the characters behind the first one of a name, which the grammar numbers. -/
def following : Name := .fresh 1

theorem derives_following_iff :
    Derives productions [.nonterminal following] tokens ↔ ∃ text ∈ letters ++ digits, tokens = [text] := by
  have alone : productions.filter (·.head = following) =
      [[phrase "letter"], [phrase "digit"]].map (⟨following, ·⟩) := by decide +kernel
  rw [(DefinedBy.of_filter alone).derives_choice_iff]
  simp only [List.mem_cons, List.not_mem_nil, or_false, exists_eq_left, List.mem_append, or_and_right,
    exists_or, derives_letter_iff, derives_digit_iff]

/-- A letter, and any number of letters and digits behind it. -/
theorem derives_name_iff : Derives productions [phrase "Name"] tokens ↔
    ∃ first rest, tokens = first :: rest ∧ first ∈ letters ∧ ∀ text ∈ rest, text ∈ letters ++ digits := by
  have alone : productions.filter (·.head = .given "Name") =
      [⟨.given "Name", [phrase "letter"]⟩, ⟨.given "Name", [phrase "Name", .nonterminal following]⟩] := by
    decide +kernel
  rw [phrase, (DefinedBy.of_filter alone).derives_repetition_iff]
  simp only [derives_letter_iff, derives_following_iff]
  constructor
  · rintro ⟨_, parts, rfl, ⟨first, letter, rfl⟩, single⟩
    refine ⟨first, parts.flatten, rfl, letter, fun text member => ?_⟩
    obtain ⟨part, present, inside⟩ := List.mem_flatten.mp member
    obtain ⟨other, listed, rfl⟩ := single part present
    exact List.mem_singleton.mp inside ▸ listed
  · rintro ⟨first, rest, rfl, letter, others⟩
    have single : (rest.map ([·])).flatten = rest := by rw [← List.flatMap_def, List.flatMap_singleton']
    refine ⟨[first], rest.map ([·]), by rw [single]; rfl, ⟨first, letter, rfl⟩, fun part present => ?_⟩
    obtain ⟨text, member, rfl⟩ := List.mem_map.mp present
    exact ⟨text, others text member, rfl⟩

theorem single_of_name (derives : Derives productions [phrase "Name"] tokens) :
    ∀ text ∈ tokens, text ∈ letters ++ digits := by
  obtain ⟨first, rest, rfl, letter, others⟩ := derives_name_iff.mp derives
  exact List.forall_mem_cons.mpr ⟨List.mem_append_left _ letter, others⟩

/-- A letter, a digit or an underscore. -/
def IsWordChar (char : Char) : Prop := char.isAlphanum ∨ char = '_'

instance : DecidablePred IsWordChar := fun char => inferInstanceAs (Decidable (char.isAlphanum ∨ char = '_'))

theorem IsWordChar.toNat_lt (wordChar : IsWordChar char) : char.toNat < 128 := by
  have below {limit : UInt32} (within : char.val ≤ limit) (small : limit.toNat < 128) : char.toNat < 128 :=
    lt_of_le_of_lt (UInt32.le_iff_toNat_le.mp within) small
  obtain alphanum | rfl := wordChar
  · obtain alpha | digit := (Bool.or_eq_true _ _).mp alphanum
    · obtain upper | lower := (Bool.or_eq_true _ _).mp alpha
      · exact below (of_decide_eq_true upper).2 (by decide)
      · exact below (of_decide_eq_true ((Bool.and_eq_true _ _).mp lower).2) (by decide)
    · exact below (of_decide_eq_true ((Bool.and_eq_true _ _).mp digit).2) (by decide)
  · decide

/-- As a token, such a character is a digit or a letter in the sense of the grammar. -/
theorem IsWordChar.token (wordChar : IsWordChar char) : isBlank char = false ∧
    String.singleton char ∈ letters ++ digits ∧ (String.singleton char ∈ letters ↔ char.isDigit = false) := by
  have table : ∀ code < 128, IsWordChar (Char.ofNat code) → isBlank (Char.ofNat code) = false ∧
      String.singleton (Char.ofNat code) ∈ letters ++ digits ∧
      (String.singleton (Char.ofNat code) ∈ letters ↔ (Char.ofNat code).isDigit = false) := by
    decide +kernel
  have entry := table char.toNat wordChar.toNat_lt
  rw [Char.ofNat_toNat] at entry
  exact entry wordChar

/-- No single character is a literal of the lexicon. -/
theorem singles_not_literal : ∀ text ∈ letters ++ digits, text.toList ∉ lexicon.literals := by decide +kernel

theorem ne_nil_of_literal : ∀ literal ∈ lexicon.literals, literal ≠ [] := by decide +kernel

/-- The literals without other characters are the keywords. -/
theorem exists_keyword_of_literal {literal : List Char} (member : literal ∈ lexicon.literals)
    (plain : ∀ char ∈ literal, IsWordChar char) : ∃ keyword ∈ keywords, keyword.toList = literal := by
  have table : ∀ literal ∈ lexicon.literals, literal.all (IsWordChar ·) → literal ∈ keywords.map String.toList := by
    decide +kernel
  exact List.mem_map.mp (table literal member (List.all_eq_true.mpr fun char present => by simp [plain char present]))

theorem keyword_literal : ∀ keyword ∈ keywords, keyword.toList ∈ lexicon.literals := by decide +kernel

section

variable (plain : ∀ char ∈ source.toList, IsWordChar char)
include plain

theorem solid_of_plain : Solid source.toList := fun char member => (plain char member).token.1

theorem tokenize_of_plain : lexicon.tokenize source = lexicon.tokensFrom 0 source.toList := by
  rw [Lexicon.tokenize, trimEnd_of_solid (solid_of_plain plain)]

/-- A word without a keyword inside is cut into its characters. -/
theorem map_text_tokenize_of_absent (absent : ∀ keyword ∈ keywords, ¬ keyword.toList <:+: source.toList) :
    (lexicon.tokenize source).map (·.text) = source.toList.map String.singleton := by
  rw [tokenize_of_plain plain]
  apply Lexicon.map_text_tokensFrom_of_absent (solid_of_plain plain)
  intro literal member inside
  obtain ⟨keyword, listed, rfl⟩ :=
    exists_keyword_of_literal member fun char present => plain char (inside.subset present)
  exact absurd inside (absent keyword listed)

/-- A word that is cut into letters and digits has no keyword inside. -/
theorem absent_of_single (single : ∀ text ∈ (lexicon.tokenize source).map (·.text), text ∈ letters ++ digits) :
    ∀ keyword ∈ keywords, ¬ keyword.toList <:+: source.toList := by
  intro keyword listed inside
  have member := keyword_literal keyword listed
  obtain ⟨token, present, literal⟩ :=
    Lexicon.exists_literal_of_infix (solid_of_plain plain) member (ne_nil_of_literal _ member) inside 0
  rw [← tokenize_of_plain plain] at present
  exact singles_not_literal _ (single _ (List.mem_map_of_mem present)) literal

/-- The words that are cut into a sentence of `Name`. -/
theorem derives_name_tokenize_iff :
    Derives productions [phrase "Name"] ((lexicon.tokenize source).map (·.text)) ↔
      source ≠ "" ∧ (∀ first ∈ source.toList.head?, first.isDigit = false) ∧
        ∀ keyword ∈ keywords, ¬ keyword.toList <:+: source.toList := by
  constructor
  · -- The tokens of a name are single characters, so there is no keyword, so they are the characters of the word.
    intro derives
    have absent := absent_of_single plain (single_of_name derives)
    rw [map_text_tokenize_of_absent plain absent] at derives
    obtain ⟨first, rest, texts, letter, _⟩ := derives_name_iff.mp derives
    obtain ⟨char, chars, whole, rfl, _⟩ := List.map_eq_cons_iff.mp texts
    refine ⟨fun empty => by simp [empty] at whole, fun other leads => ?_, absent⟩
    obtain rfl : char = other := by simpa [whole] using leads
    exact (plain char (by simp [whole])).token.2.2.mp letter
  · rintro ⟨something, leading, absent⟩
    obtain ⟨char, chars, whole⟩ := List.exists_cons_of_ne_nil (mt String.toList_eq_nil_iff.mp something)
    rw [map_text_tokenize_of_absent plain absent, whole]
    apply derives_name_iff.mpr
    refine ⟨String.singleton char, chars.map String.singleton, rfl, ?_, fun text member => ?_⟩
    · exact (plain char (by simp [whole])).token.2.2.mpr (leading char (by simp [whole]))
    · obtain ⟨other, present, rfl⟩ := List.mem_map.mp member
      exact (plain other (by simp [whole, present])).token.2.1

end

/-- A word of letters, digits and underscores is taken for a name, whatever the policy and with recovery or without, if
and only if it is not empty, does not begin with a digit and has no keyword anywhere inside it. -/
theorem feed_name_iff (plain : ∀ char ∈ source.toList, char.isAlphanum ∨ char = '_') :
    ∃ initial, Session.ofStart grammar (.given "Name") = .ok initial ∧ ∀ (recovery : Bool) (policy : FailurePolicy),
      let transcript := initial.feed (if recovery then some ";" else none) policy (lexicon.tokenize source)
      (transcript.refusals = 0 ∧ transcript.isAccepting ↔
        source ≠ "" ∧ (∀ first ∈ source.toList.head?, first.isDigit = false) ∧
          ∀ keyword ∈ keywords, ¬ keyword.toList <:+: source.toList) := by
  obtain ⟨initial, opened⟩ : ∃ initial, Session.ofStart grammar (.given "Name") = .ok initial :=
    Session.exists_initial ⟨⟨.given "Name", [phrase "letter"]⟩, show _ ∈ productions by decide +kernel, rfl⟩
  refine ⟨initial, opened, fun recovery policy => ?_⟩
  rw [← derives_name_tokenize_iff plain]
  refine Session.feed_succeeds_iff_derives opened fun stream derives inserted given => ?_
  obtain rfl : inserted = separator := by cases recovery <;> simp_all [separator]
  have other : separator ∉ letters ++ digits := by decide +kernel
  exact fun present => other (single_of_name derives separator present)

theorem feed_name_render :
    (∀ char ∈ "render".toList ++ "x_1".toList, char.isAlphanum ∨ char = '_') ∧
    ∃ initial, Session.ofStart grammar (.given "Name") = .ok initial ∧ ∀ (recovery : Bool) (policy : FailurePolicy),
      let feed (source : String) := initial.feed (if recovery then some ";" else none) policy (lexicon.tokenize source)
      ((feed "x_1").refusals = 0 ∧ (feed "x_1").isAccepting) ∧
        ¬ ((feed "render").refusals = 0 ∧ (feed "render").isAccepting) := by
  have plain : ∀ char ∈ "render".toList ++ "x_1".toList, char.isAlphanum ∨ char = '_' := by simp
  obtain ⟨initial, opened, named⟩ := feed_name_iff fun char member => plain char (List.mem_append_right _ member)
  obtain ⟨other, again, refused⟩ := feed_name_iff fun char member => plain char (List.mem_append_left _ member)
  obtain rfl : initial = other := by simpa [opened] using again
  refine ⟨plain, initial, opened, fun recovery policy => ⟨(named recovery policy).mpr ?_, fun passes => ?_⟩⟩
  · exact ⟨by decide, fun _ leads => Option.mem_some.mp leads ▸ rfl, by decide⟩
  · obtain ⟨_, _, absent⟩ := (refused recovery policy).mp passes
    exact absent "end" (by decide) ⟨['r'], ['e', 'r'], by decide⟩

end Viable.Lua
