import Viable.Lua.Grammar
import Viable.Proofs.Grammar.Yield
import Viable.Proofs.Sampling.Growth
import Viable.Proofs.Token.Layout

/-! The sentences of the Lua grammar: every name has some, and when one is written down with blanks between its
tokens, the tokens are told apart again. -/

namespace Viable.Lua

/-- Every name of the grammar is given a height. -/
theorem heights_isSome : ∀ name ∈ headsOf productions, ((heightsOf productions).lookup name).isSome := by
  decide +kernel

theorem exists_tree {name : Name} (contained : grammar.contains name) : Nonempty (grammar.Tree [.nonterminal name]) := by
  obtain ⟨production, member, heads⟩ := Grammar.contains_iff.mp contained
  obtain ⟨least, known⟩ := Option.isSome_iff_exists.mp
    (heights_isSome name (mem_headsOf.mpr ⟨production, member, heads⟩))
  obtain ⟨⟨tree, _⟩, _⟩ := lookup_heightsOf_iff name least |>.mp known
  exact ⟨tree⟩

theorem unbroken_lexicon : lexicon.Unbroken := by decide +kernel

/-- What the grammar spells out is either in the lexicon or a single character. -/
theorem admits_literals : ∀ production ∈ productions, ∀ text ∈ production.literals, lexicon.Admits text.toList := by
  decide +kernel

/-- The tokens of a name, joined by single blanks, are the tokens of the line. -/
theorem map_text_tokenize_of_derives {name : Name} {tokens : List String}
    (derives : Derives productions [.nonterminal name] tokens) :
    (lexicon.tokenize (" ".intercalate tokens)).map (·.text) = tokens :=
  Lexicon.map_text_tokenize_intercalate unbroken_lexicon (derives.forall_mem admits_literals (by simp [Symbol.text?]))

end Viable.Lua
