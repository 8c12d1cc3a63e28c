import Viable.Proofs.Grammar.Table
import Viable.Proofs.Sampling.Choice
import Viable.Sampling

/-! Growing a random derivation. From a name that has a derivation, every choice has something to choose from,
and the levels suffice to get to the end. -/

namespace Viable

variable {grammar : Grammar} {name : Name} {least maxDepth depth : Nat}

namespace Grammar

theorem lookup_heights_iff : grammar.heights.lookup name = some least ↔
    LeastHeight grammar.productions.toList name least := by
  rw [grammar.heights_eq, lookup_heightsOf_iff]

/-- The candidates are the productions of the name that can be finished, with their heights. -/
theorem mem_candidates {candidate : Candidate grammar name} :
    candidate ∈ grammar.candidates name ↔
      candidate.production.height? grammar.heights = some candidate.height := by
  simp only [candidates, List.mem_filterMap]
  constructor
  · intro listed
    obtain ⟨position, _, found⟩ := listed
    split at found
    case isFalse => cases found
    case isTrue =>
      split at found
      case isFalse => cases found
      case isTrue =>
        obtain ⟨height, same, rfl⟩ := Option.map_eq_some_iff.mp found
        exact same
  · intro finished
    obtain ⟨production, member, heads, height⟩ := candidate
    obtain ⟨position, present⟩ := List.getElem?_of_mem member
    rw [Array.getElem?_toList] at present
    refine ⟨position, mem_alternatives.mpr ⟨production, present, heads⟩, ?_⟩
    obtain ⟨inside, rfl⟩ := Array.getElem?_eq_some_iff.mp present
    rw [dif_pos inside, dif_pos heads]
    simp only at finished
    rw [finished, Option.map_some]

/-- What a candidate mentions has derivations that are lower than the candidate. -/
theorem exists_lower_of_mem_candidates {candidate : Candidate grammar name}
    (listed : candidate ∈ grammar.candidates name) {reference : Name}
    (mentioned : reference ∈ candidate.production.references) :
    ∃ least < candidate.height, LeastHeight grammar.productions.toList reference least := by
  obtain ⟨tallest, found, same⟩ := Option.map_eq_some_iff.mp (mem_candidates.mp listed)
  obtain ⟨height, low, known⟩ := Heights.exists_tallest?_le_iff.mp ⟨tallest, le_rfl, found⟩ reference mentioned
  exact ⟨height, by omega, lookup_heights_iff.mp known⟩

/-- The body of a candidate can be finished one lower than the candidate. -/
theorem finishes_body_of_mem_candidates {candidate : Candidate grammar name}
    (listed : candidate ∈ grammar.candidates name) :
    ∃ lower, candidate.height = lower + 1 ∧ Finishes grammar.productions.toList lower candidate.production.body := by
  obtain ⟨tallest, _, same⟩ := Option.map_eq_some_iff.mp (mem_candidates.mp listed)
  refine ⟨tallest, same.symm, finishes_iff_references.mpr fun reference mentioned => ?_⟩
  obtain ⟨least, below, ⟨tree, low⟩, _⟩ := exists_lower_of_mem_candidates listed mentioned
  exact ⟨tree, by omega⟩

theorem finishes_of_mem_candidates {candidate : Candidate grammar name}
    (listed : candidate ∈ grammar.candidates name) :
    Finishes grammar.productions.toList candidate.height [.nonterminal name] := by
  obtain ⟨lower, same, body⟩ := finishes_body_of_mem_candidates listed
  exact finishes_nonterminal_iff.mpr ⟨candidate.production, candidate.member, candidate.heads, lower, same, body⟩

/-- Every production whose body can be finished is a candidate, and it is no higher than that. -/
theorem exists_candidate {production : Production} (member : production ∈ grammar.productions.toList)
    (heads : production.head = name) {lower : Nat}
    (body : Finishes grammar.productions.toList lower production.body) :
    ∃ height ≤ lower + 1, ⟨production, member, heads, height⟩ ∈ grammar.candidates name := by
  have known (reference : Name) (mentioned : reference ∈ production.references) :
      ∃ height ≤ lower, grammar.heights.lookup reference = some height := by
    obtain ⟨height, low, leastReference⟩ :=
      exists_leastHeight (finishes_iff_references.mp body reference mentioned)
    exact ⟨height, low, lookup_heights_iff.mpr leastReference⟩
  obtain ⟨tallest, low, found⟩ := Heights.exists_tallest?_le_iff.mpr known
  exact ⟨tallest + 1, Nat.succ_le_succ low, mem_candidates.mpr (by simp [Production.height?, found])⟩

/-- A name with a derivation has a candidate that is no higher than its lowest derivation. -/
theorem exists_candidate_le (isLeast : LeastHeight grammar.productions.toList name least) :
    ∃ candidate ∈ grammar.candidates name, candidate.height ≤ least := by
  obtain ⟨production, member, heads, lower, rfl, body⟩ := finishes_nonterminal_iff.mp isLeast.1
  obtain ⟨height, low, listed⟩ := exists_candidate member heads body
  exact ⟨_, listed, low⟩

theorem candidatesAt_of_lt (shallow : depth < maxDepth) :
    grammar.candidatesAt maxDepth depth name = grammar.candidates name := if_pos shallow

/-- From the greatest depth on, the candidates are the lowest ones of all, and there are some. -/
theorem exists_lowest (deep : maxDepth ≤ depth) {some : Candidate grammar name}
    (listed : some ∈ grammar.candidates name) :
    ∃ lowest ∈ grammar.candidates name,
      (∀ candidate ∈ grammar.candidates name, lowest.height ≤ candidate.height) ∧
      ∀ candidate, candidate ∈ grammar.candidatesAt maxDepth depth name ↔
        candidate ∈ grammar.candidates name ∧ candidate.height = lowest.height := by
  have height : some.height ∈ (grammar.candidates name).map (·.height) := List.mem_map.mpr ⟨some, listed, rfl⟩
  obtain ⟨least, same⟩ := Option.isSome_iff_exists.mp (List.isSome_min?_of_mem height)
  obtain ⟨attained, minimal⟩ := List.min?_eq_some_iff.mp same
  obtain ⟨lowest, lowestListed, rfl⟩ := List.mem_map.mp attained
  refine ⟨lowest, lowestListed, fun candidate candidateListed => ?_, fun candidate => ?_⟩
  · exact minimal _ (List.mem_map.mpr ⟨candidate, candidateListed, rfl⟩)
  · rw [candidatesAt, if_neg (by omega), same, List.mem_filter]
    simp

theorem mem_candidates_of_mem_candidatesAt {candidate : Candidate grammar name}
    (listed : candidate ∈ grammar.candidatesAt maxDepth depth name) : candidate ∈ grammar.candidates name := by
  unfold candidatesAt at listed
  split at listed
  · exact listed
  · exact List.mem_of_mem_filter listed

/-- A name without derivations has no candidates. -/
theorem candidatesAt_of_isEmpty (empty : IsEmpty (grammar.Tree [.nonterminal name])) (maxDepth depth : Nat) :
    grammar.candidatesAt maxDepth depth name = [] := by
  apply List.eq_nil_iff_forall_not_mem.mpr
  intro candidate listed
  obtain ⟨tree, _⟩ := finishes_of_mem_candidates (mem_candidates_of_mem_candidatesAt listed)
  exact empty.false tree

/-- A name with a derivation can be grown at every depth. -/
theorem candidatesAt_ne_nil (maxDepth depth : Nat) (isLeast : LeastHeight grammar.productions.toList name least) :
    grammar.candidatesAt maxDepth depth name ≠ [] := by
  obtain ⟨candidate, listed, _⟩ := exists_candidate_le isLeast
  by_cases shallow : depth < maxDepth
  · rw [candidatesAt_of_lt shallow]
    exact List.ne_nil_of_mem listed
  · obtain ⟨lowest, lowestListed, _, mem_iff⟩ := exists_lowest (Nat.not_lt.mp shallow) listed
    exact List.ne_nil_of_mem ((mem_iff lowest).mpr ⟨lowestListed, rfl⟩)

/-- From the greatest depth on, it is grown as low as it can be. -/
theorem height_le_of_mem_candidatesAt (deep : maxDepth ≤ depth) {candidate : Candidate grammar name}
    (listed : candidate ∈ grammar.candidatesAt maxDepth depth name)
    (isLeast : LeastHeight grammar.productions.toList name least) : candidate.height ≤ least := by
  obtain ⟨other, otherListed, low⟩ := exists_candidate_le isLeast
  obtain ⟨lowest, _, minimal, mem_iff⟩ := exists_lowest deep otherListed
  calc
    candidate.height = lowest.height := ((mem_iff candidate).mp listed).2
    _ ≤ other.height := minimal other otherListed
    _ ≤ least := low

end Grammar

namespace Sampling

open Chance

variable {σ : Type}

/-- A body is grown as far as each of its nonterminals is. -/
theorem exists_growBody {grow : (name : Name) → OptionT (StateM σ) (grammar.Tree [.nonterminal name])} {body : Body}
    (grows : ∀ name ∈ body.filterMap Symbol.name?, ∀ source,
      ∃ tree rest, (grow name).run.run source = (some tree, rest)) (source : σ) :
    ∃ tree rest, (growBody grow body).run.run source = (some tree, rest) := by
  induction body generalizing source with
  | nil => exact ⟨.nil, source, rfl⟩
  | cons symbol body ih =>
    cases symbol with
    | terminal text =>
      obtain ⟨tree, rest, grown⟩ := ih grows source
      exact ⟨.terminal text tree, rest, run_bind_of_some grown⟩
    | nonterminal name =>
      simp only [List.filterMap_cons, Symbol.name?, List.forall_mem_cons] at grows
      obtain ⟨tree, between, grown⟩ := grows.1 source
      obtain ⟨others, rest, grownBody⟩ := ih grows.2 between
      refine ⟨tree.append others, rest, ?_⟩
      rw [growBody, run_bind_of_some grown, run_bind_of_some grownBody]
      rfl

variable [Source σ]

/-- How many levels are left: down to the greatest depth and then as many as the lowest derivation has. -/
def Enough (grammar : Grammar) (maxDepth levels depth least : Nat) : Prop :=
  depth ≤ maxDepth ∧ maxDepth + grammar.heights.length ≤ levels + depth ∨ maxDepth ≤ depth ∧ least ≤ levels

/-- With levels enough, a name with a derivation is grown to the end. -/
theorem exists_grow {levels : Nat} (isLeast : LeastHeight grammar.productions.toList name least)
    (enough : Enough grammar maxDepth levels depth least) (source : σ) :
    ∃ (tree : grammar.Tree [.nonterminal name]) (rest : σ),
      (grow maxDepth levels depth name).run.run source = (some tree, rest) := by
  have bounded : least ≤ grammar.heights.length := grammar.heights_eq ▸ isLeast.le_length
  have positive := isLeast.pos
  induction levels generalizing depth name least source with
  | zero =>
    unfold Enough at enough
    omega
  | succ levels ih =>
    obtain ⟨candidate, listed, between, chosen⟩ :=
      exists_choose (Grammar.candidatesAt_ne_nil maxDepth depth isLeast) source
    have grows (reference : Name) (mentioned : reference ∈ candidate.production.references) (source : σ) :
        ∃ (tree : grammar.Tree [.nonterminal reference]) (rest : σ),
          (grow maxDepth levels (depth + 1) reference).run.run source = (some tree, rest) := by
      obtain ⟨lower, below, leastReference⟩ := Grammar.exists_lower_of_mem_candidates
        (Grammar.mem_candidates_of_mem_candidatesAt listed) mentioned
      have boundedReference : lower ≤ grammar.heights.length := grammar.heights_eq ▸ leastReference.le_length
      refine ih leastReference ?_ source boundedReference leastReference.pos
      unfold Enough at enough ⊢
      by_cases deep : maxDepth ≤ depth
      · have low := Grammar.height_le_of_mem_candidatesAt deep listed isLeast
        omega
      · omega
    obtain ⟨children, rest, grown⟩ := exists_growBody grows between
    refine ⟨.node name candidate.production candidate.member candidate.heads children .nil, rest, ?_⟩
    rw [grow, run_bind_of_some chosen, run_bind_of_some grown]
    rfl

/-- A name without derivations is not grown, and no word is drawn for it. -/
theorem grow_of_isEmpty (empty : IsEmpty (grammar.Tree [.nonterminal name])) (levels : Nat) (source : σ) :
    (grow maxDepth levels depth name : OptionT (StateM σ) (grammar.Tree [.nonterminal name])).run.run source =
      (none, source) := by
  cases levels with
  | zero => rfl
  | succ levels =>
    refine run_bind_of_none ?_
    rw [Grammar.candidatesAt_of_isEmpty empty]
    exact choose_nil source

end Sampling

end Viable
