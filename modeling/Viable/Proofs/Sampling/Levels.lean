import Mathlib.Order.Lattice.Nat
import Viable.Proofs.Grammar.Fruitful
import Viable.Proofs.Sampling.Sentences

/-! How high a random derivation gets. Whatever is chosen on the way, no nonterminal stands deeper than the greatest
depth and, below it, the greatest of the least heights; from the greatest depth on every subtree is as low as it can
be. So growing comes to its end, without anything that counts its levels. -/

namespace Viable

open Chance

namespace Derivation

variable {productions : List Production}

/-- A nonterminal in a derivation: how deep it stands, and what is derived from it. -/
structure Node (productions : List Production) where
  depth : Nat
  name : Name
  tree : Derivation productions [.nonterminal name]

/-- The nonterminals in a derivation whose body stands at some depth. -/
def nodes : Nat → {body : Body} → Derivation productions body → List (Node productions)
  | _, _, nil => []
  | depth, _, terminal _ rest => rest.nodes depth
  | depth, _, node name production member heads children rest =>
    ⟨depth, name, .node name production member heads children .nil⟩ :: (children.nodes (depth + 1) ++ rest.nodes depth)

theorem height_append {first second : Body} (left : Derivation productions first)
    (right : Derivation productions second) : (left.append right).height = max left.height right.height := by
  induction left with
  | nil => simp [append, height]
  | terminal text rest ih => exact ih
  | node name production member heads children rest _ ih => simp only [append, height, ih, max_assoc]

theorem height_pos {name : Name} {body : Body} (tree : Derivation productions (.nonterminal name :: body)) :
    0 < tree.height := by
  obtain _ | _ | ⟨_, _, _, _, children, rest⟩ := tree
  exact Nat.lt_of_lt_of_le (Nat.succ_pos children.height) (le_max_left ..)

/-- What is derived from a name stands apart from what is derived behind it. -/
theorem exists_append {name : Name} {body : Body} (tree : Derivation productions (.nonterminal name :: body)) :
    ∃ (first : Derivation productions [.nonterminal name]) (rest : Derivation productions body),
      tree = first.append rest := by
  obtain _ | _ | ⟨_, production, member, heads, children, rest⟩ := tree
  exact ⟨.node name production member heads children .nil, rest, rfl⟩

/-- A derivation is as high as its nonterminals are deep. -/
theorem height_le_of_forall_nodes {body : Body} {tree : Derivation productions body} {depth bound : Nat}
    (shallow : ∀ node ∈ tree.nodes depth, node.depth < depth + bound) : tree.height ≤ bound := by
  induction tree generalizing depth bound with
  | nil => exact Nat.zero_le bound
  | terminal text rest ih => exact ih shallow
  | node name production member heads children rest ihChildren ihRest =>
    simp only [nodes, List.forall_mem_cons, List.forall_mem_append] at shallow
    obtain ⟨own, inside, behind⟩ := shallow
    obtain ⟨lower, rfl⟩ : ∃ lower, bound = lower + 1 := ⟨bound - 1, by omega⟩
    have low : children.height ≤ lower := ihChildren fun node member => by
      have deep := inside node member
      omega
    exact max_le (Nat.succ_le_succ low) (ihRest behind)

end Derivation

namespace Grammar

variable {grammar : Grammar} {maxDepth depth : Nat} {start name : Name} {body : Body}

/-- The derivations that growing can come to: each nonterminal is replaced by one of the candidates at its depth. -/
def Grown (grammar : Grammar) (maxDepth : Nat) : Nat → {body : Body} → grammar.Tree body → Prop
  | _, _, .nil => True
  | depth, _, .terminal _ rest => grammar.Grown maxDepth depth rest
  | depth, _, .node name production _ _ children rest =>
    (∃ candidate ∈ grammar.candidatesAt maxDepth depth name, candidate.production = production) ∧
      grammar.Grown maxDepth (depth + 1) children ∧ grammar.Grown maxDepth depth rest

theorem Visited.occurs (visited : grammar.Visited maxDepth start depth name) :
    Occurs grammar.productions.toList start name := by
  induction visited with
  | start => exact .itself _ start
  | @child depth name reference candidate _ _ mentioned ih =>
    have head : Occurs grammar.productions.toList start candidate.production.head := by rwa [candidate.heads]
    exact head.reference candidate.member mentioned

/-- The potential of a visited name, its depth and its least height, never exceeds the greatest depth and the greatest
least height: above the greatest depth because the depth is small, and from there on because it cannot rise. -/
theorem Visited.add_least_le {tallest least : Nat} (visited : grammar.Visited maxDepth start depth name)
    (bounded : ∀ name least, Occurs grammar.productions.toList start name →
      LeastHeight grammar.productions.toList name least → least ≤ tallest)
    (isLeast : LeastHeight grammar.productions.toList name least) : depth + least ≤ maxDepth + tallest := by
  induction visited generalizing least with
  | start =>
    have low := bounded start least (.itself _ start) isLeast
    omega
  | @child depth name reference candidate visited listed mentioned ih =>
    have low := bounded reference least (visited.child listed mentioned).occurs isLeast
    have candidateListed := mem_candidates_of_mem_candidatesAt listed
    by_cases shallow : depth < maxDepth
    · omega
    · obtain ⟨above, _, leastAbove⟩ := Viable.exists_leastHeight (finishes_of_mem_candidates candidateListed)
      obtain ⟨lower, below, leastReference⟩ := exists_lower_of_mem_candidates candidateListed mentioned
      obtain rfl := isLeast.unique leastReference
      have lowest := height_le_of_mem_candidatesAt (Nat.not_lt.mp shallow) listed leastAbove
      have potential := ih leastAbove
      omega

/-- Calls that go down from a start with a derivation come to an end. -/
theorem Visited.depth_lt {tallest least : Nat} (visited : grammar.Visited maxDepth start depth name)
    (bounded : ∀ name least, Occurs grammar.productions.toList start name →
      LeastHeight grammar.productions.toList name least → least ≤ tallest)
    (isLeast : LeastHeight grammar.productions.toList start least) : depth < maxDepth + tallest := by
  obtain ⟨height, leastHere⟩ := visited.exists_leastHeight isLeast
  have potential := visited.add_least_le bounded leastHere
  have positive := leastHere.pos
  omega

namespace Grown

variable {tree : grammar.Tree body}

/-- All nonterminals of a grown derivation are visited. -/
theorem visited (grown : grammar.Grown maxDepth depth tree)
    (above : ∀ name ∈ body.filterMap Symbol.name?, grammar.Visited maxDepth start depth name) :
    ∀ node ∈ tree.nodes depth, grammar.Visited maxDepth start node.depth node.name := by
  induction tree generalizing depth with
  | nil => exact fun _ absent => absurd absent List.not_mem_nil
  | terminal text rest ih => exact ih grown above
  | node name production member heads children rest ihChildren ihRest =>
    obtain ⟨⟨candidate, listed, rfl⟩, inside, behind⟩ := grown
    simp only [List.filterMap_cons, Symbol.name?, List.forall_mem_cons] at above
    simp only [Derivation.nodes, List.forall_mem_cons, List.forall_mem_append]
    exact ⟨above.1, ihChildren inside fun reference mentioned => above.1.child listed mentioned,
      ihRest behind above.2⟩

/-- Each subtree of a grown derivation is grown as well. -/
theorem node (grown : grammar.Grown maxDepth depth tree) :
    ∀ node ∈ tree.nodes depth, grammar.Grown maxDepth node.depth node.tree := by
  induction tree generalizing depth with
  | nil => exact fun _ absent => absurd absent List.not_mem_nil
  | terminal text rest ih => exact ih grown
  | node name production member heads children rest ihChildren ihRest =>
    obtain ⟨chosen, inside, behind⟩ := grown
    simp only [Derivation.nodes, List.forall_mem_cons, List.forall_mem_append]
    exact ⟨⟨chosen, inside, trivial⟩, ihChildren inside, ihRest behind⟩

/-- From the greatest depth on, no derivation of the same body is lower than a grown one. -/
theorem height_le (grown : grammar.Grown maxDepth depth tree) (deep : maxDepth ≤ depth) {bound : Nat}
    (finishes : Finishes grammar.productions.toList bound body) : tree.height ≤ bound := by
  induction tree generalizing depth bound with
  | nil => exact Nat.zero_le bound
  | terminal text rest ih =>
    have parts := finishes_iff_references.mp finishes
    exact ih grown deep (finishes_iff_references.mpr parts)
  | node name production member heads children rest ihChildren ihRest =>
    obtain ⟨⟨candidate, listed, rfl⟩, inside, behind⟩ := grown
    have parts := finishes_iff_references.mp finishes
    simp only [List.filterMap_cons, Symbol.name?, List.forall_mem_cons] at parts
    obtain ⟨least, low, isLeast⟩ := exists_leastHeight parts.1
    obtain ⟨lower, height, body⟩ := finishes_body_of_mem_candidates (mem_candidates_of_mem_candidatesAt listed)
    have candidateLow := height_le_of_mem_candidatesAt deep listed isLeast
    have childrenLow := ihChildren inside (by omega) body
    exact max_le (by omega) (ihRest behind deep (finishes_iff_references.mpr parts.2))

/-- So a grown derivation of a name is of least height there. -/
theorem leastHeight {tree : grammar.Tree [.nonterminal name]} (grown : grammar.Grown maxDepth depth tree)
    (deep : maxDepth ≤ depth) : LeastHeight grammar.productions.toList name tree.height :=
  ⟨⟨tree, le_rfl⟩, fun _ finishes => grown.height_le deep finishes⟩

end Grown

end Grammar

namespace Sampling

variable {grammar : Grammar} {maxDepth levels depth : Nat} {start name : Name} {body : Body} {σ : Type} [Source σ]
  {source after : σ}

/-- Growing without anything that counts its levels: from a source a derivation is drawn, and a source is left behind
it. Where this is possible, growing comes to its end. -/
inductive Drawn (grammar : Grammar) (maxDepth : Nat) : Nat → {body : Body} → σ → grammar.Tree body → σ → Prop where
  | nil {depth : Nat} (source : σ) : Drawn grammar maxDepth depth source .nil source
  | terminal {depth : Nat} (text : String) {body : Body} {source after : σ} {rest : grammar.Tree body}
      (behind : Drawn grammar maxDepth depth source rest after) :
      Drawn grammar maxDepth depth source (.terminal text rest) after
  | node {depth : Nat} {name : Name} {candidate : Candidate grammar name} {body : Body} {source chosen between after : σ}
      {children : grammar.Tree candidate.production.body} {rest : grammar.Tree body}
      (choice : (choose (grammar.candidatesAt maxDepth depth name)).run.run source = (some candidate, chosen))
      (inside : Drawn grammar maxDepth (depth + 1) chosen children between)
      (behind : Drawn grammar maxDepth depth between rest after) :
      Drawn grammar maxDepth depth source
        (.node name candidate.production candidate.member candidate.heads children rest) after

/-- What is drawn is one of the derivations that growing can come to. -/
theorem Drawn.grown {tree : grammar.Tree body} (drawn : Drawn grammar maxDepth depth source tree after) :
    grammar.Grown maxDepth depth tree := by
  induction drawn with
  | nil => trivial
  | terminal text behind ih => exact ih
  | node choice inside behind ihInside ihBehind =>
    exact ⟨⟨_, mem_of_run_choose choice, rfl⟩, ihInside, ihBehind⟩

/-- A body is drawn from left to right, each nonterminal to its end before the next one. -/
theorem drawn_append_iff {tree : grammar.Tree [.nonterminal name]} {rest : grammar.Tree body} :
    Drawn grammar maxDepth depth source (tree.append rest) after ↔
      ∃ between, Drawn grammar maxDepth depth source tree between ∧ Drawn grammar maxDepth depth between rest after := by
  obtain _ | _ | ⟨_, production, member, heads, children, nothing⟩ := tree
  cases nothing
  constructor
  · intro drawn
    cases drawn with
    | node choice inside behind => exact ⟨_, .node choice inside (.nil _), behind⟩
  · intro drawn
    obtain ⟨between, first, behind⟩ := drawn
    cases first with
    | node choice inside nothing =>
      cases nothing
      exact .node choice inside behind

/-- A body is grown when it is drawn and no higher than the levels, if that is how names are grown. -/
theorem run_growBody_iff {grow : (name : Name) → OptionT (StateM σ) (grammar.Tree [.nonterminal name])}
    (names : ∀ (name : Name) (source : σ) (tree : grammar.Tree [.nonterminal name]) (after : σ),
      (grow name).run.run source = (some tree, after) ↔
        Drawn grammar maxDepth depth source tree after ∧ tree.height ≤ levels)
    {tree : grammar.Tree body} : (growBody grow body).run.run source = (some tree, after) ↔
      Drawn grammar maxDepth depth source tree after ∧ tree.height ≤ levels := by
  induction body generalizing source with
  | nil =>
    cases tree
    constructor
    · intro grown
      obtain ⟨_, rfl⟩ := run_pure_eq_some_iff.mp grown
      exact ⟨.nil source, Nat.zero_le levels⟩
    · intro drawn
      cases drawn.1
      exact run_pure_eq_some_iff.mpr ⟨rfl, rfl⟩
  | cons symbol body ih =>
    cases symbol with
    | terminal text =>
      constructor
      · intro grown
        obtain ⟨rest, between, grownRest, finish⟩ := run_bind_eq_some_iff.mp grown
        obtain ⟨rfl, rfl⟩ := run_pure_eq_some_iff.mp finish
        obtain ⟨behind, low⟩ := ih.mp grownRest
        exact ⟨.terminal text behind, low⟩
      · intro both
        obtain ⟨drawn, low⟩ := both
        cases drawn with
        | @terminal _ _ _ _ _ rest behind =>
          exact run_bind_eq_some_iff.mpr
            ⟨rest, after, ih.mpr ⟨behind, low⟩, run_pure_eq_some_iff.mpr ⟨rfl, rfl⟩⟩
    | nonterminal name =>
      constructor
      · intro grown
        obtain ⟨first, between, grownFirst, grownBehind⟩ := run_bind_eq_some_iff.mp grown
        obtain ⟨rest, _, grownRest, finish⟩ := run_bind_eq_some_iff.mp grownBehind
        obtain ⟨rfl, rfl⟩ := run_pure_eq_some_iff.mp finish
        obtain ⟨drawn, low⟩ := (names ..).mp grownFirst
        obtain ⟨behind, lowBehind⟩ := ih.mp grownRest
        exact ⟨drawn_append_iff.mpr ⟨between, drawn, behind⟩, (first.height_append rest).symm ▸ max_le low lowBehind⟩
      · intro both
        obtain ⟨drawn, low⟩ := both
        obtain ⟨first, rest, rfl⟩ := tree.exists_append
        obtain ⟨between, drawnFirst, behind⟩ := drawn_append_iff.mp drawn
        obtain ⟨lowFirst, lowBehind⟩ := max_le_iff.mp (first.height_append rest ▸ low)
        refine run_bind_eq_some_iff.mpr ⟨first, between, (names ..).mpr ⟨drawnFirst, lowFirst⟩, ?_⟩
        exact run_bind_eq_some_iff.mpr
          ⟨rest, after, ih.mpr ⟨behind, lowBehind⟩, run_pure_eq_some_iff.mpr ⟨rfl, rfl⟩⟩

/-- Growing with a number of levels is drawing a derivation that is no higher. -/
theorem run_grow_iff {tree : grammar.Tree [.nonterminal name]} :
    (grow maxDepth levels depth name).run.run source = (some tree, after) ↔
      Drawn grammar maxDepth depth source tree after ∧ tree.height ≤ levels := by
  induction levels generalizing depth name source after with
  | zero =>
    constructor
    · intro grown
      cases grown
    · exact fun both => absurd both.2 (Nat.not_le_of_lt tree.height_pos)
  | succ levels ih =>
    constructor
    · intro grown
      obtain ⟨candidate, chosen, choice, grownBehind⟩ := run_bind_eq_some_iff.mp grown
      obtain ⟨children, between, grownBody, finish⟩ := run_bind_eq_some_iff.mp grownBehind
      obtain ⟨rfl, rfl⟩ := run_pure_eq_some_iff.mp finish
      obtain ⟨inside, low⟩ := (run_growBody_iff fun _ _ _ _ => ih).mp grownBody
      exact ⟨.node choice inside (.nil _), max_le (Nat.succ_le_succ low) (Nat.zero_le _)⟩
    · intro both
      obtain ⟨drawn, low⟩ := both
      cases drawn with
      | @node _ _ candidate _ _ chosen _ _ children _ choice inside nothing =>
        cases nothing
        have lower : children.height ≤ levels := Nat.le_of_succ_le_succ (max_le_iff.mp low).1
        refine run_bind_eq_some_iff.mpr ⟨candidate, chosen, choice, ?_⟩
        exact run_bind_eq_some_iff.mpr ⟨children, _, (run_growBody_iff fun _ _ _ _ => ih).mpr ⟨inside, lower⟩,
          run_pure_eq_some_iff.mpr ⟨rfl, rfl⟩⟩

/-- A sample is what is drawn from the start. The levels that growing is given for it are never used up. -/
theorem run_sample_eq_ok_iff {tree : grammar.Tree [.nonterminal start]} :
    (grammar.sample start maxDepth).run source = (.ok tree, after) ↔ Drawn grammar maxDepth 0 source tree after := by
  obtain ⟨least, _, isLeast⟩ := exists_leastHeight ⟨tree, le_rfl⟩
  obtain ⟨production, member, heads, _⟩ := finishes_nonterminal_iff.mp isLeast.1
  rw [Grammar.sample, if_pos (Grammar.contains_iff.mpr ⟨production, member, heads⟩), StateT.run_bind]
  constructor
  · intro sampled
    cases grown : ((grow maxDepth (maxDepth + grammar.heights.length) 0 start :
        OptionT (StateM σ) (grammar.Tree [.nonterminal start])).run.run source) with
    | mk answer rest =>
      rw [grown] at sampled
      cases answer with
      | none => cases sampled
      | some other =>
        cases sampled
        exact (run_grow_iff.mp grown).1
  · intro drawn
    have low : tree.height ≤ maxDepth + grammar.heights.length :=
      Derivation.height_le_of_forall_nodes fun node member => by
        have visited := drawn.grown.visited (List.forall_mem_singleton.mpr .start) node member
        rw [Nat.zero_add]
        exact visited.depth_lt (fun _ _ _ other => grammar.heights_eq ▸ other.le_length) isLeast
    rw [run_grow_iff.mpr ⟨drawn, low⟩]
    rfl

end Sampling

/-- Among the least heights of what occurs from a fruitful start, one is the greatest. -/
theorem exists_tallest {productions : List Production} {start : Name} {least : Nat}
    (isLeast : LeastHeight productions start least) :
    ∃ tallest, IsGreatest {height | ∃ name, Occurs productions start name ∧ LeastHeight productions name height}
      tallest := by
  have bounded : BddAbove {height | ∃ name, Occurs productions start name ∧ LeastHeight productions name height} := by
    refine ⟨(heightsOf productions).length, ?_⟩
    intro height attained
    obtain ⟨name, _, isLeastHere⟩ := attained
    exact isLeastHere.le_length
  exact ⟨_, Nat.sSup_mem ⟨least, start, .itself productions start, isLeast⟩ bounded, fun _ => le_csSup bounded⟩

/-- Sampling ends whatever is chosen, and its derivations are no higher than they have to be. Let `tallest` be the
greatest least height of a name that occurs from the start and derives something. Then no chain of calls gets deeper
than `maxDepth + tallest`, nor is any derivation that growing can come to higher; all that is derived at `maxDepth` or
deeper is of least height, and so is the whole if `maxDepth` is zero. From every source such a derivation is drawn,
without anything that counts levels. -/
theorem sample_bounded {productions : List Production} {grammar : Grammar}
    (built : Grammar.ofProductions productions = .ok grammar) {start : Name} (fruitful : Fruitful productions start) :
    ∃ tallest,
      IsGreatest {height | ∃ name, Occurs productions start name ∧ LeastHeight productions name height} tallest ∧
      ∀ maxDepth,
        (∀ depth name, grammar.Visited maxDepth start depth name → depth < maxDepth + tallest) ∧
        (∀ tree : grammar.Tree [.nonterminal start], grammar.Grown maxDepth 0 tree →
          tree.height ≤ maxDepth + tallest ∧
          (∀ node ∈ tree.nodes 0, maxDepth ≤ node.depth → LeastHeight productions node.name node.tree.height) ∧
          (maxDepth = 0 → LeastHeight productions start tree.height)) ∧
        ∀ {σ : Type} [Source σ] (source : σ), ∃ tree after,
          (grammar.sample start maxDepth).run source = (.ok tree, after) ∧
            Sampling.Drawn grammar maxDepth 0 source tree after ∧ grammar.Grown maxDepth 0 tree := by
  have same := Grammar.productions_of_ofProductions built
  subst same
  obtain ⟨tokens, steps⟩ := fruitful
  obtain ⟨derivation, _⟩ := derives_iff_rewritesTo.mpr steps
  obtain ⟨least, _, isLeast⟩ := exists_leastHeight ⟨derivation, le_rfl⟩
  obtain ⟨tallest, greatest⟩ := exists_tallest isLeast
  refine ⟨tallest, greatest, fun maxDepth => ?_⟩
  have shallow (depth : Nat) (name : Name) (visited : grammar.Visited maxDepth start depth name) :
      depth < maxDepth + tallest :=
    visited.depth_lt (fun name least occurs isLeast => greatest.2 ⟨name, occurs, isLeast⟩) isLeast
  refine ⟨shallow, fun tree grown => ⟨?_, ?_, ?_⟩, fun source => ?_⟩
  · apply Derivation.height_le_of_forall_nodes
    intro node member
    rw [Nat.zero_add]
    exact shallow _ _ (grown.visited (List.forall_mem_singleton.mpr .start) node member)
  · exact fun node member deep => (grown.node node member).leastHeight deep
  · exact fun none => grown.leastHeight none.le
  · obtain ⟨sampled, after, run⟩ := Grammar.exists_sample derivation maxDepth source
    have drawn := Sampling.run_sample_eq_ok_iff.mp run
    exact ⟨sampled, after, run, drawn, drawn.grown⟩

/-- Lists in brackets, whose items may be lists again. -/
def nestedLists : List Production :=
  [⟨.given "list", [.terminal "[", .nonterminal (.given "items"), .terminal "]"]⟩,
    ⟨.given "items", [.nonterminal (.given "item"), .terminal ",", .nonterminal (.given "items")]⟩,
    ⟨.given "items", [.nonterminal (.given "item")]⟩, ⟨.given "item", [.nonterminal (.given "list")]⟩,
    ⟨.given "item", [.terminal "x"]⟩]

theorem complete_nestedLists : Complete nestedLists := by decide

theorem sample_lowest_list : ∃ grammar tree after, Grammar.ofProductions nestedLists = .ok grammar ∧
    Fruitful nestedLists (.given "list") ∧
    (grammar.sample (.given "list") 0).run (⟨[0x80000000, 7], 0⟩ : Listed) = (.ok tree, after) ∧ tree.height = 3 := by
  have built := Grammar.ofProductions_of_complete complete_nestedLists
  have isLeast : LeastHeight nestedLists (.given "list") 3 := (lookup_heightsOf_iff _ 3).mp (by decide)
  obtain ⟨derivation, _⟩ := isLeast.1
  have fruitful : Fruitful nestedLists (.given "list") := Derives.fruitful ⟨derivation, rfl⟩
  obtain ⟨_, _, bounded⟩ := sample_bounded built fruitful
  obtain ⟨_, lowest, sampled⟩ := bounded 0
  obtain ⟨tree, after, run, _, grown⟩ := sampled (⟨[0x80000000, 7], 0⟩ : Listed)
  exact ⟨_, tree, after, built, fruitful, run, ((lowest tree grown).2.2 rfl).unique isLeast⟩

end Viable
