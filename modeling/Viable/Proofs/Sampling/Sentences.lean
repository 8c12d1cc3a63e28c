import Viable.Proofs.Sampling.Growth
import Viable.Proofs.Session.Recognition

/-! What a sample says about the grammar: an error names what is missing, and anything else is a sentence. -/

namespace Viable

open Chance

variable {grammar : Grammar} {start : Name} {maxDepth : Nat} {σ : Type} [Source σ]

namespace Grammar

/-- The names that a growth from the start can come to, whatever is chosen on the way, and how deep they stand. -/
inductive Visited (grammar : Grammar) (maxDepth : Nat) (start : Name) : Nat → Name → Prop where
  | start : Visited grammar maxDepth start 0 start
  | child {depth : Nat} {name reference : Name} {candidate : Candidate grammar name}
      (visited : Visited grammar maxDepth start depth name)
      (listed : candidate ∈ grammar.candidatesAt maxDepth depth name)
      (mentioned : reference ∈ candidate.production.references) :
      Visited grammar maxDepth start (depth + 1) reference

/-- From a name with a derivation a growth comes to such names only. -/
theorem Visited.exists_leastHeight {depth least : Nat} {name : Name} (visited : grammar.Visited maxDepth start depth name)
    (isLeast : LeastHeight grammar.productions.toList start least) :
    ∃ height, LeastHeight grammar.productions.toList name height := by
  induction visited with
  | start => exact ⟨least, isLeast⟩
  | child _ listed mentioned _ =>
    obtain ⟨height, _, lower⟩ := exists_lower_of_mem_candidates (mem_candidates_of_mem_candidatesAt listed) mentioned
    exact ⟨height, lower⟩

/-- So nothing that it comes to is without candidates. -/
theorem Visited.candidatesAt_ne_nil {depth : Nat} {name : Name} (visited : grammar.Visited maxDepth start depth name)
    (tree : grammar.Tree [.nonterminal start]) : grammar.candidatesAt maxDepth depth name ≠ [] := by
  obtain ⟨least, _, isLeast⟩ := Viable.exists_leastHeight ⟨tree, le_rfl⟩
  obtain ⟨height, isLeastHere⟩ := visited.exists_leastHeight isLeast
  exact Grammar.candidatesAt_ne_nil maxDepth depth isLeastHere

theorem sample_of_not_contains (missing : ¬grammar.contains start) (source : σ) :
    (grammar.sample start maxDepth).run source = (.error (.undefinedNonterminal start), source) := by
  rw [sample, if_neg missing]
  rfl

theorem sample_of_isEmpty (contained : grammar.contains start) (empty : IsEmpty (grammar.Tree [.nonterminal start]))
    (source : σ) : (grammar.sample start maxDepth).run source = (.error (.unproductive start), source) := by
  rw [sample, if_pos contained, StateT.run_bind, Sampling.grow_of_isEmpty empty]
  rfl

/-- From a start with a derivation every stream of words grows one. -/
theorem exists_sample (tree : grammar.Tree [.nonterminal start]) (maxDepth : Nat) (source : σ) :
    ∃ sampled rest, (grammar.sample start maxDepth).run source = (.ok sampled, rest) := by
  obtain ⟨least, _, isLeast⟩ := Viable.exists_leastHeight ⟨tree, le_rfl⟩
  obtain ⟨production, member, heads, _⟩ := finishes_nonterminal_iff.mp isLeast.1
  have enough : Sampling.Enough grammar maxDepth (maxDepth + grammar.heights.length) 0 least :=
    .inl ⟨Nat.zero_le _, le_rfl⟩
  obtain ⟨sampled, rest, grown⟩ := Sampling.exists_grow isLeast enough source
  refine ⟨sampled, rest, ?_⟩
  rw [sample, if_pos (contains_iff.mpr ⟨production, member, heads⟩), StateT.run_bind, grown]
  rfl

theorem sample_eq_undefined_iff (source : σ) :
    ((grammar.sample start maxDepth).run source).1 = .error (.undefinedNonterminal start) ↔
      ¬grammar.contains start := by
  constructor
  · intro undefined contained
    cases isEmpty_or_nonempty (grammar.Tree [.nonterminal start]) with
    | inl empty => simp [sample_of_isEmpty contained empty] at undefined
    | inr nonempty =>
      obtain ⟨tree⟩ := nonempty
      obtain ⟨sampled, rest, drawn⟩ := exists_sample tree maxDepth source
      simp [drawn] at undefined
  · intro missing
    rw [sample_of_not_contains missing]

theorem sample_eq_unproductive_iff (source : σ) :
    ((grammar.sample start maxDepth).run source).1 = .error (.unproductive start) ↔
      grammar.contains start ∧ IsEmpty (grammar.Tree [.nonterminal start]) := by
  constructor
  · intro unproductive
    refine ⟨?_, ⟨fun tree => ?_⟩⟩
    · by_contra missing
      simp [sample_of_not_contains missing] at unproductive
    · obtain ⟨sampled, rest, drawn⟩ := exists_sample tree maxDepth source
      simp [drawn] at unproductive
  · intro barren
    rw [sample_of_isEmpty barren.1 barren.2]

end Grammar

namespace Session

/-- The tokens of a derivation are a sentence: a fresh session consumes all of them and accepts them. -/
theorem exists_accepting (tree : grammar.Tree [.nonterminal start]) :
    ∃ initial final, ofStart grammar start = .ok initial ∧ initial.advanceAll tree.tokens = .ok final ∧
      final.isAccepting :=
  accepts_iff_derives.mpr ⟨tree, rfl⟩

/-- A start without derivations is one from which nothing is accepted. -/
theorem never_accepting_iff :
    (∃ initial, ofStart grammar start = .ok initial ∧
      ∀ tokens final, initial.advanceAll tokens = .ok final → final.isAccepting = false) ↔
      grammar.contains start ∧ IsEmpty (grammar.Tree [.nonterminal start]) := by
  constructor
  · intro never
    obtain ⟨initial, opened, never⟩ := never
    refine ⟨contains_of_ofStart opened, ⟨fun tree => ?_⟩⟩
    obtain ⟨other, final, openedOther, advanced, accepting⟩ := exists_accepting tree
    cases opened.symm.trans openedOther
    simp [never _ _ advanced] at accepting
  · intro barren
    obtain ⟨initial, opened⟩ := exists_initial (Grammar.contains_iff.mp barren.1)
    refine ⟨initial, opened, fun tokens final advanced => Bool.eq_false_iff.mpr fun accepting => ?_⟩
    obtain ⟨tree, _⟩ := ((Reads.fresh opened).advanceAll advanced).isAccepting_iff.mp accepting
    exact barren.2.false tree

end Session

/-- Sampling is exact: the start is undefined or unproductive if and only if a sample says so, and anything else
is a sentence that a session from the start accepts. No choice is made from nothing on the way to it. -/
theorem sample_exact {productions : List Production} {grammar : Grammar}
    (built : Grammar.ofProductions productions = .ok grammar) (start : Name) (maxDepth : Nat) (source : σ) :
    let answer := ((grammar.sample start maxDepth).run source).1
    (answer = .error (.undefinedNonterminal start) ↔ ∀ production ∈ productions, production.head ≠ start) ∧
    (answer = .error (.unproductive start) ↔ (∃ production ∈ productions, production.head = start) ∧
      ∀ tokens, ¬RewritesTo productions [.nonterminal start] (spell tokens)) ∧
    (answer = .error (.unproductive start) ↔ ∃ initial, Session.ofStart grammar start = .ok initial ∧
      ∀ tokens final, initial.advanceAll tokens = .ok final → final.isAccepting = false) ∧
    (answer ≠ .error (.undefinedNonterminal start) → answer ≠ .error (.unproductive start) →
      ∃ tree, answer = .ok tree ∧ RewritesTo productions [.nonterminal start] (spell tree.tokens) ∧
        (∃ initial final, Session.ofStart grammar start = .ok initial ∧
          initial.advanceAll tree.tokens = .ok final ∧ final.isAccepting) ∧
        ∀ depth name, grammar.Visited maxDepth start depth name →
          grammar.candidatesAt maxDepth depth name ≠ []) := by
  have same := Grammar.productions_of_ofProductions built
  subst same
  have barren : IsEmpty (grammar.Tree [.nonterminal start]) ↔
      ∀ tokens, ¬RewritesTo grammar.productions.toList [.nonterminal start] (spell tokens) := by
    simp only [← derives_iff_rewritesTo, Derives, isEmpty_iff]
    exact ⟨fun none _ ⟨tree, _⟩ => none tree, fun none tree => none tree.tokens ⟨tree, rfl⟩⟩
  refine ⟨?_, ?_, ?_, fun defined productive => ?_⟩
  · rw [Grammar.sample_eq_undefined_iff, Grammar.contains_iff]
    push Not
    rfl
  · rw [Grammar.sample_eq_unproductive_iff, Grammar.contains_iff, barren]
  · rw [Grammar.sample_eq_unproductive_iff, Session.never_accepting_iff]
  · rw [ne_eq, Grammar.sample_eq_undefined_iff, not_not] at defined
    rw [ne_eq, Grammar.sample_eq_unproductive_iff] at productive
    obtain ⟨tree⟩ := not_isEmpty_iff.mp fun empty => productive ⟨defined, empty⟩
    obtain ⟨sampled, rest, drawn⟩ := Grammar.exists_sample tree maxDepth source
    exact ⟨sampled, by rw [drawn], derives_iff_rewritesTo.mp ⟨sampled, rfl⟩, Session.exists_accepting sampled,
      fun depth name visited => visited.candidatesAt_ne_nil sampled⟩

/-- Items, one way to which leads through a name that derives nothing. -/
def items : List Production :=
  [⟨.given "item", [.terminal "x", .nonterminal (.given "void")]⟩, ⟨.given "item", [.terminal "x"]⟩,
    ⟨.given "void", [.nonterminal (.given "void"), .terminal "x"]⟩]

theorem complete_items : Complete items := by decide

theorem sample_item : ∃ grammar tree initial final, Grammar.ofProductions items = .ok grammar ∧
    ((grammar.sample (.given "item") 2).run (⟨[0x80000000], 0⟩ : Listed)).1 = .ok tree ∧
    Session.ofStart grammar (.given "item") = .ok initial ∧ initial.advanceAll tree.tokens = .ok final ∧
    final.isAccepting := by
  have built : Grammar.ofProductions items = .ok (.ofComplete items complete_items) := dif_pos complete_items
  have plain : ⟨.given "item", [.terminal "x"]⟩ ∈ items := by decide
  have derives : Derives items [.nonterminal (.given "item")] ["x"] := .node plain (.spell ["x"]) .nil
  obtain ⟨undefined, unproductive, -, sampled⟩ := sample_exact built (.given "item") 2
    (⟨[0x80000000], 0⟩ : Listed)
  obtain ⟨tree, same, -, ⟨initial, final, opened, advanced, accepting⟩, -⟩ := sampled
    (fun missing => undefined.mp missing _ plain rfl)
    (fun barren => (unproductive.mp barren).2 _ derives.rewritesTo)
  exact ⟨_, tree, initial, final, built, same, opened, advanced, accepting⟩

end Viable
