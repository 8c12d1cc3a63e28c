import Viable.Proofs.Sampling.Levels

/-! Every derivation can be drawn. A word can be found for each choice, and the words for the choices of a derivation,
those for a nonterminal before those for what is derived from it, are a list from which it is sampled. -/

namespace Viable

namespace Chance

/-- The zone is wide enough for all remainders of a division by `count`. -/
theorem pred_le_zone (count : Nat) : count - 1 ≤ zone count := by
  have wider : count ≤ count <<< (31 - count.log2) := by
    rw [Nat.shiftLeft_eq]
    exact Nat.le_mul_of_pos_right count (Nat.two_pow_pos _)
  exact Nat.sub_le_sub_right wider 1

/-- Each number below `count` is the answer for some word: the first one whose product with `count` gets to it. -/
theorem exists_word {count index : Nat} (inside : index < count) (small : count < 2 ^ 32) :
    ∃ word : UInt32, word.toNat * count % 2 ^ 32 ≤ zone count ∧ word.toNat * count / 2 ^ 32 = index := by
  have wide := pred_le_zone count
  have division := Nat.div_add_mod (index * 2 ^ 32 + (count - 1)) count
  have remainder := Nat.mod_lt (index * 2 ^ 32 + (count - 1)) (Nat.zero_lt_of_lt inside)
  generalize (index * 2 ^ 32 + (count - 1)) / count = first at division
  have fits : first < 2 ^ 32 := by
    apply Nat.lt_of_mul_lt_mul_left (a := count)
    omega
  refine ⟨UInt32.ofNat first, ?_⟩
  rw [UInt32.toNat_ofNat_of_lt' fits, Nat.mul_comm]
  omega

/-- So each of the items is chosen for some word, if a word can tell them apart. -/
theorem exists_word_choose {α : Type} {items : List α} {item : α} (member : item ∈ items)
    (small : items.length < 2 ^ 32) :
    ∃ word, ∀ words drawn, (choose items).run.run (⟨word :: words, drawn⟩ : Listed) = (some item, ⟨words, drawn + 1⟩) := by
  obtain ⟨index, inside, rfl⟩ := List.getElem_of_mem member
  obtain ⟨word, decided, answer⟩ := exists_word inside small
  refine ⟨word, fun words drawn => ?_⟩
  have number : (below items.length).run (⟨word :: words, drawn⟩ : Listed) = (index, ⟨words, drawn + 1⟩) := by
    have first : (below items.length).run (⟨word :: words, drawn⟩ : Listed) =
        if word.toNat * items.length % 2 ^ 32 ≤ zone items.length then
          (word.toNat * items.length / 2 ^ 32, ⟨words, drawn + 1⟩)
        else (draw items.length (words.length + 1)).run ⟨words, drawn + 1⟩ :=
      run_draw_succ items.length (words.length + 1) (⟨word :: words, drawn⟩ : Listed)
    rw [first, if_pos decided, answer]
  rw [run_choose (List.ne_nil_of_mem member), number, List.getElem?_eq_getElem inside]

end Chance

variable {grammar : Grammar} {name : Name} {body : Body}

theorem Grammar.length_candidates_le (grammar : Grammar) (name : Name) :
    (grammar.candidates name).length ≤ (grammar.alternatives name).length :=
  List.length_filterMap_le ..

namespace Sampling

open Chance

/-- A derivation of any body is drawn from the words for its choices, as long as no choice in it is made at the greatest
depth or deeper. The words behind them are left over. -/
theorem exists_words_drawn (few : ∀ name, (grammar.alternatives name).length < 2 ^ 32) (tree : grammar.Tree body) :
    ∃ words, ∀ maxDepth depth, depth + tree.height ≤ maxDepth → ∀ rest drawn,
      Drawn grammar maxDepth depth (⟨words ++ rest, drawn⟩ : Listed) tree ⟨rest, drawn + words.length⟩ := by
  -- The words do not depend on what stands behind them, so those of a node are its own, those inside and those behind.
  induction tree with
  | nil => exact ⟨[], fun _ _ _ _ _ => .nil _⟩
  | terminal text rest ih =>
    obtain ⟨words, draws⟩ := ih
    exact ⟨words, fun maxDepth depth low more drawn => .terminal text (draws maxDepth depth low more drawn)⟩
  | node name production member heads children rest ihChildren ihRest =>
    obtain ⟨height, _, listed⟩ := Grammar.exists_candidate member heads ⟨children, le_rfl⟩
    have small : (grammar.candidates name).length < 2 ^ 32 := (grammar.length_candidates_le name).trans_lt (few name)
    obtain ⟨word, chooses⟩ := exists_word_choose listed small
    obtain ⟨wordsInside, drawsInside⟩ := ihChildren
    obtain ⟨wordsBehind, drawsBehind⟩ := ihRest
    refine ⟨word :: (wordsInside ++ wordsBehind), fun maxDepth depth low more drawn => ?_⟩
    simp only [Derivation.height] at low
    have choice := chooses (wordsInside ++ (wordsBehind ++ more)) drawn
    rw [← Grammar.candidatesAt_of_lt (show depth < maxDepth by omega)] at choice
    have inside := drawsInside maxDepth (depth + 1) (by omega) (wordsBehind ++ more) (drawn + 1)
    have behind := drawsBehind maxDepth depth (by omega) more (drawn + 1 + wordsInside.length)
    have count : drawn + (word :: (wordsInside ++ wordsBehind)).length =
        drawn + 1 + wordsInside.length + wordsBehind.length := by
      simp only [List.length_cons, List.length_append]
      omega
    rw [List.cons_append, List.append_assoc, count]
    exact .node choice inside behind

end Sampling

/-- Every sentence can be sampled: for each derivation from the start there are words from which it is drawn, and all of
them are used up, whatever the greatest depth is from some depth on. -/
theorem exists_words_sample {productions : List Production} {grammar : Grammar}
    (built : Grammar.ofProductions productions = .ok grammar)
    (few : ∀ name, (grammar.alternatives name).length < 2 ^ 32) {start : Name} {tokens : List String}
    (steps : RewritesTo productions [.nonterminal start] (spell tokens)) :
    ∃ depth words tree, tree.tokens = tokens ∧ ∀ maxDepth ≥ depth,
      (grammar.sample start maxDepth).run (⟨words, 0⟩ : Chance.Listed) = (.ok tree, ⟨[], words.length⟩) := by
  have same := Grammar.productions_of_ofProductions built
  subst same
  obtain ⟨tree, rfl⟩ := derives_iff_rewritesTo.mpr steps
  obtain ⟨words, draws⟩ := Sampling.exists_words_drawn few tree
  refine ⟨tree.height, words, tree, rfl, fun maxDepth deep => Sampling.run_sample_eq_ok_iff.mpr ?_⟩
  simpa using draws maxDepth 0 (by omega) [] 0

theorem exists_words_list : ∃ grammar depth words tree, Grammar.ofProductions nestedLists = .ok grammar ∧
    (∀ name, (grammar.alternatives name).length < 2 ^ 32) ∧
    (grammar.sample (.given "list") depth).run (⟨words, 0⟩ : Chance.Listed) = (.ok tree, ⟨[], words.length⟩) ∧
      tree.tokens = ["[", "x", ",", "x", "]"] := by
  have built := Grammar.ofProductions_of_complete complete_nestedLists
  have few (name : Name) : ((Grammar.ofComplete nestedLists complete_nestedLists).alternatives name).length < 2 ^ 32 :=
    (Grammar.length_alternatives_le _ name).trans_lt (by decide)
  have list : ⟨.given "list", [.terminal "[", .nonterminal (.given "items"), .terminal "]"]⟩ ∈ nestedLists := by decide
  have several : ⟨.given "items", [.nonterminal (.given "item"), .terminal ",", .nonterminal (.given "items")]⟩ ∈
    nestedLists := by decide
  have single : ⟨.given "items", [.nonterminal (.given "item")]⟩ ∈ nestedLists := by decide
  have plain : ⟨.given "item", [.terminal "x"]⟩ ∈ nestedLists := by decide
  have item : Derives nestedLists [.nonterminal (.given "item")] ["x"] := .of_body plain (.spell ["x"])
  have items : Derives nestedLists [.nonterminal (.given "items")] ["x", ",", "x"] :=
    .of_body several (item.append (.terminal "," (.of_body single item)))
  have derives : Derives nestedLists [.nonterminal (.given "list")] ["[", "x", ",", "x", "]"] :=
    .of_body list (.terminal "[" (items.append (.spell ["]"])))
  obtain ⟨depth, words, tree, same, sampled⟩ := exists_words_sample built few derives.rewritesTo
  exact ⟨_, depth, words, tree, built, few, sampled depth le_rfl, same⟩

end Viable
