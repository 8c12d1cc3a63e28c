import Mathlib.Data.List.Nodup
import Viable.Proofs.Grammar.Defect

/-! The look-up tables of a grammar as an index of its production list. The table of positions can be grown at its end,
one production after the other, and it lists every production once, under its head. -/

namespace Viable

/-- What one more production adds to a table: its position comes last under its head, and a new head comes last. -/
def enter (rules : List (Name × List Nat)) (head : Name) (position : Nat) : List (Name × List Nat) :=
  if (rules.lookup head).isSome then
    rules.map fun entry => (entry.1, if entry.1 = head then entry.2 ++ [position] else entry.2)
  else rules ++ [(head, [position])]

variable {productions : List Production} {name : Name}

theorem headsOf_concat (productions : List Production) (last : Production) :
    headsOf (productions ++ [last]) =
      if last.head ∈ headsOf productions then headsOf productions else headsOf productions ++ [last.head] := by
  simp only [headsOf, List.map_append, List.map_cons, List.map_nil, eraseDups_concat, List.mem_eraseDups]

theorem positionsOf_concat (productions : List Production) (last : Production) (name : Name) :
    positionsOf (productions ++ [last]) name =
      if name = last.head then positionsOf productions name ++ [productions.length] else positionsOf productions name := by
  rw [positionsOf, List.zipIdx_append, List.filterMap_append, ← positionsOf]
  by_cases heads : last.head = name
  · simp [heads]
  · simp [heads, Ne.symm heads]

theorem positionsOf_eq_nil (headless : name ∉ headsOf productions) : positionsOf productions name = [] := by
  apply List.eq_nil_iff_forall_not_mem.mpr
  intro position listed
  obtain ⟨production, present, heads⟩ := mem_positionsOf.mp listed
  exact headless (mem_headsOf.mpr ⟨production, List.mem_of_getElem? present, heads⟩)

/-- The step of the loop that builds the table. -/
theorem rulesOf_concat (productions : List Production) (last : Production) :
    rulesOf (productions ++ [last]) = enter (rulesOf productions) last.head productions.length := by
  rw [rulesOf, headsOf_concat, enter, lookup_rulesOf]
  by_cases known : last.head ∈ headsOf productions
  · simp only [known, if_true, Option.isSome_some]
    rw [rulesOf, List.map_map]
    refine List.map_congr_left fun name _ => ?_
    simp only [Function.comp_apply, positionsOf_concat]
  · simp only [known, if_false, Option.isSome_none, Bool.false_eq_true, List.map_append, List.map_cons, List.map_nil]
    have others : (headsOf productions).map (fun name => (name, positionsOf (productions ++ [last]) name)) =
        rulesOf productions := by
      rw [rulesOf]
      refine List.map_congr_left fun name listed => ?_
      have different : name ≠ last.head := fun same => known (same ▸ listed)
      rw [positionsOf_concat, if_neg different]
    rw [others, positionsOf_concat, if_pos rfl, positionsOf_eq_nil known, List.nil_append]

/-- The table is what the loop over all productions leaves. -/
theorem foldl_enter (productions : List Production) :
    productions.zipIdx.foldl (fun rules entry => enter rules entry.1.head entry.2) [] = rulesOf productions := by
  induction productions using List.reverseRecOn with
  | nil => rfl
  | append_singleton productions last ih =>
    rw [List.zipIdx_append, List.foldl_append, ih, rulesOf_concat]
    simp

theorem pairwise_positionsOf (productions : List Production) (name : Name) :
    (positionsOf productions name).Pairwise (· < ·) := by
  rw [positionsOf, List.pairwise_filterMap]
  refine (pairwise_zipIdx productions).imp fun order first found second foundSecond => ?_
  obtain ⟨-, same⟩ := Option.ite_none_right_eq_some.mp found
  obtain ⟨-, sameSecond⟩ := Option.ite_none_right_eq_some.mp foundSecond
  rwa [← Option.some.inj same, ← Option.some.inj sameSecond]

namespace Grammar

variable {grammar : Grammar}

/-- A name that heads nothing has no positions, so the look-up need not say that it is missing. -/
theorem alternatives_eq (grammar : Grammar) (name : Name) :
    grammar.alternatives name = positionsOf grammar.productions.toList name := by
  rw [alternatives, grammar.rules_eq, lookup_rulesOf]
  split
  case isTrue => rfl
  case isFalse headless => exact (positionsOf_eq_nil headless).symm

theorem pairwise_alternatives (grammar : Grammar) (name : Name) : (grammar.alternatives name).Pairwise (· < ·) := by
  rw [alternatives_eq]
  exact pairwise_positionsOf _ name

theorem alternatives_ne_nil_iff : grammar.alternatives name ≠ [] ↔ grammar.contains name := by
  rw [contains_iff]
  constructor
  · intro something
    obtain ⟨position, alternative⟩ := List.exists_mem_of_ne_nil _ something
    obtain ⟨production, present, heads⟩ := mem_alternatives.mp alternative
    exact ⟨production, mem_productions present, heads⟩
  · intro headed
    obtain ⟨production, member, heads⟩ := headed
    obtain ⟨position, present⟩ := List.getElem?_of_mem member
    rw [Array.getElem?_toList] at present
    exact List.ne_nil_of_mem (mem_alternatives.mpr ⟨production, present, heads⟩)

theorem inOrderOfAppearance_nonterminals (grammar : Grammar) :
    InOrderOfAppearance (grammar.productions.toList.map (·.head)) grammar.nonterminals := by
  rw [nonterminals_eq]
  exact inOrderOfAppearance_eraseDups _

/-- A position is listed under one head only, and there once. -/
theorem nodup_flatMap_alternatives (grammar : Grammar) : (grammar.nonterminals.flatMap grammar.alternatives).Nodup := by
  rw [List.nodup_flatMap]
  refine ⟨fun name _ => (grammar.pairwise_alternatives name).nodup, ?_⟩
  refine grammar.inOrderOfAppearance_nonterminals.nodup.imp fun {name other} different position first second => ?_
  obtain ⟨production, present, rfl⟩ := mem_alternatives.mp first
  obtain ⟨_, presentSecond, rfl⟩ := mem_alternatives.mp second
  cases present.symm.trans presentSecond
  exact different rfl

theorem mem_flatMap_alternatives {position : Nat} :
    position ∈ grammar.nonterminals.flatMap grammar.alternatives ↔ position < grammar.productions.size := by
  rw [List.mem_flatMap]
  constructor
  · intro listed
    obtain ⟨name, _, alternative⟩ := listed
    obtain ⟨production, present, _⟩ := mem_alternatives.mp alternative
    exact (Array.getElem?_eq_some_iff.mp present).1
  · intro inside
    have present := Array.getElem?_eq_getElem inside
    have head := contains_iff.mpr ⟨_, mem_productions present, rfl⟩
    exact ⟨_, mem_nonterminals.mpr head, mem_alternatives.mpr ⟨_, present, rfl⟩⟩

theorem mem_terminals {text : String} : text ∈ grammar.terminals ↔
    ∃ production ∈ grammar.productions.toList, .terminal text ∈ production.body := by
  rw [terminals, List.mem_eraseDups, List.mem_flatMap]
  refine exists_congr fun production => and_congr_right fun _ => ?_
  rw [Production.literals, List.mem_filterMap]
  constructor
  · intro written
    obtain ⟨symbol, present, same⟩ := written
    cases symbol with
    | terminal other => exact Option.some.inj same ▸ present
    | nonterminal => cases same
  · exact fun present => ⟨_, present, rfl⟩

/-- The tables of a grammar are an index of its production list. They are those that come of entering one production
after the other, each under its position. A name is given the positions of the productions that it heads, in increasing
order, and so over all nonterminals every position is listed once. The nonterminals are the heads, and the terminals
are the texts in the bodies, each of them once and in the order in which they appear first. A name is contained if it
is given a position, and every name in a body is. -/
theorem ofProductions_indexes {productions : List Production} {grammar : Grammar}
    (built : ofProductions productions = .ok grammar) :
    grammar.rules = productions.zipIdx.foldl (fun rules entry => enter rules entry.1.head entry.2) [] ∧
    (∀ name, (grammar.alternatives name).Pairwise (· < ·) ∧ ∀ position, position ∈ grammar.alternatives name ↔
      ∃ production, productions[position]? = some production ∧ production.head = name) ∧
    (grammar.nonterminals.flatMap grammar.alternatives).Perm (List.range productions.length) ∧
    (InOrderOfAppearance (productions.map (·.head)) grammar.nonterminals ∧ grammar.nonterminals.Nodup ∧
      ∀ name, name ∈ grammar.nonterminals ↔ ∃ production ∈ productions, production.head = name) ∧
    (InOrderOfAppearance (productions.flatMap (·.literals)) grammar.terminals ∧ grammar.terminals.Nodup ∧
      ∀ text, text ∈ grammar.terminals ↔ ∃ production ∈ productions, .terminal text ∈ production.body) ∧
    (∀ name, grammar.contains name ↔ grammar.alternatives name ≠ []) ∧
    ∀ production ∈ productions, ∀ name, .nonterminal name ∈ production.body → grammar.alternatives name ≠ [] := by
  have same := productions_of_ofProductions built
  subst same
  have heads := grammar.inOrderOfAppearance_nonterminals
  have texts : InOrderOfAppearance (grammar.productions.toList.flatMap (·.literals)) grammar.terminals :=
    inOrderOfAppearance_eraseDups _
  refine ⟨?_, fun name => ⟨grammar.pairwise_alternatives name, fun position => ?_⟩, ?_,
    ⟨heads, heads.nodup, fun name => ?_⟩, ⟨texts, texts.nodup, fun text => mem_terminals⟩,
    fun name => alternatives_ne_nil_iff.symm, fun production member name mentioned => ?_⟩
  · rw [foldl_enter, grammar.rules_eq]
  · rw [mem_alternatives, Array.getElem?_toList]
  · refine (List.perm_ext_iff_of_nodup grammar.nodup_flatMap_alternatives List.nodup_range).mpr fun position => ?_
    rw [mem_flatMap_alternatives, List.mem_range, Array.length_toList]
  · rw [mem_nonterminals, contains_iff]
  · have head := grammar.complete production member name (Production.mem_references.mpr mentioned)
    exact alternatives_ne_nil_iff.mpr (contains_iff.mpr (mem_headsOf.mp head))

/-- Two heads in turn, and a terminal that comes back. -/
def turns : List Production :=
  [⟨.given "a", [.terminal "x", .nonterminal (.given "b")]⟩, ⟨.given "b", [.terminal "y", .terminal "x"]⟩,
    ⟨.given "a", []⟩, ⟨.given "b", [.nonterminal (.given "a"), .terminal "z"]⟩]

theorem complete_turns : Complete turns := by decide

theorem indexes_turns : ∃ grammar, ofProductions turns = .ok grammar ∧
    grammar.alternatives (.given "a") = [0, 2] ∧ grammar.alternatives (.given "b") = [1, 3] ∧
    grammar.alternatives (.given "c") = [] ∧ grammar.terminals = ["x", "y", "z"] ∧
    (grammar.nonterminals.flatMap grammar.alternatives).Perm (List.range 4) ∧
    grammar.rules = [(.given "a", [0, 2]), (.given "b", [1, 3])] := by
  have built := ofProductions_of_complete complete_turns
  obtain ⟨table, -, listed, -⟩ := ofProductions_indexes built
  exact ⟨_, built, by decide, by decide, by decide, by decide, listed, table.trans (by decide)⟩

end Grammar

end Viable
