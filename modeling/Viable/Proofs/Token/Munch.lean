import Mathlib.Data.Set.Basic
import Viable.Proofs.Token.Spans

/-! Maximal munch. The tokens of a source are determined by what can be seen in it: each of them begins at the first
character that is no blank, and is the longest literal there or else one character. So nothing shows of a lexicon but
which literals it has. -/

namespace Viable

open Text

namespace Text

theorem utf8ByteSize_eq (text : String) : text.utf8ByteSize = byteWidth text.toList := by
  rw [byteWidth_eq, String.ofList_toList]

end Text

namespace Lexicon

variable {lexicon : Lexicon}

/-- The texts that can be a token because the lexicon has them. -/
def words (lexicon : Lexicon) : Set String := {text | text ≠ "" ∧ text.toList ∈ lexicon.literals}

/-- The text begins the source, and every literal that does begins the text, which is a literal or, if there is none,
a single character. -/
def Leads (lexicon : Lexicon) (source text : List Char) : Prop :=
  text <+: source ∧
    ((text ≠ [] ∧ text ∈ lexicon.literals ∧ ∀ literal ∈ lexicon.literals, literal <+: source → literal <+: text) ∨
      (text.length = 1 ∧ ∀ literal ∈ lexicon.literals, literal <+: source → literal = []))

theorem leads_leading (lexicon : Lexicon) (first : Char) (rest : List Char) :
    lexicon.Leads (first :: rest) (lexicon.leading first rest) := by
  rcases lexicon.leading_cases first rest with ⟨single, none⟩ | ⟨member, begins, longest⟩
  · rw [single]
    exact ⟨⟨rest, rfl⟩, .inr ⟨rfl, none⟩⟩
  · exact ⟨begins, .inl ⟨lexicon.leading_ne_nil first rest, member, fun literal listed other =>
      List.prefix_of_prefix_length_le other begins (longest literal listed other)⟩⟩

/-- Only one text leads. -/
theorem Leads.unique {source first second : List Char} (leads : lexicon.Leads source first)
    (other : lexicon.Leads source second) : first = second := by
  obtain ⟨begins, ⟨something, listed, longest⟩ | ⟨single, none⟩⟩ := leads
  · obtain ⟨beginsOther, ⟨_, listedOther, longestOther⟩ | ⟨_, noneOther⟩⟩ := other
    · exact (longestOther _ listed begins).eq_of_length_le (longest _ listedOther beginsOther).length_le
    · exact absurd (noneOther _ listed begins) something
  · obtain ⟨beginsOther, ⟨somethingOther, listedOther, _⟩ | ⟨singleOther, _⟩⟩ := other
    · exact absurd (none _ listedOther beginsOther) somethingOther
    · have same : first.length = second.length := single.trans singleOther.symm
      exact (List.prefix_of_prefix_length_le begins beginsOther same.le).eq_of_length same

theorem leading_eq_iff {first : Char} {rest text : List Char} :
    lexicon.leading first rest = text ↔ lexicon.Leads (first :: rest) text := by
  constructor
  · intro same
    exact same ▸ lexicon.leads_leading first rest
  · exact (lexicon.leads_leading first rest).unique

/-- The non-empty texts that are keywords or operators. -/
def literalSet (keywords operators : List String) : Set String :=
  {literal | literal ≠ "" ∧ (literal ∈ keywords ∨ literal ∈ operators)}

theorem words_ofLists (keywords operators : List String) :
    (ofLists keywords operators).words = literalSet keywords operators := by
  ext text
  simp [words, ofLists, literalSet, String.toList_inj]

end Lexicon

end Viable
