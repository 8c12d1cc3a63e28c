import Mathlib.Data.List.Induction
import Viable.Grammar.Defect
import Viable.Proofs.Grammar.Height
import Viable.Proofs.Grammar.Rewriting

/-! What the tables of a grammar answer, in terms of its production list. -/

namespace Viable

theorem mem_positionsOf {productions : List Production} {name : Name} {position : Nat} :
    position ∈ positionsOf productions name ↔
      ∃ production, productions[position]? = some production ∧ production.head = name := by
  simp only [positionsOf, List.mem_filterMap, Option.ite_none_right_eq_some, Option.some_inj]
  constructor
  · intro entry
    obtain ⟨⟨production, other⟩, member, heads, rfl⟩ := entry
    exact ⟨production, List.mk_mem_zipIdx_iff_getElem?.mp member, heads⟩
  · intro entry
    obtain ⟨production, present, heads⟩ := entry
    exact ⟨(production, position), List.mk_mem_zipIdx_iff_getElem?.mpr present, heads, rfl⟩

theorem mem_headsOf {productions : List Production} {name : Name} :
    name ∈ headsOf productions ↔ ∃ production ∈ productions, production.head = name := by
  simp [headsOf]

/-- The listed items stand in the order in which they first appear among the others. -/
def InOrderOfAppearance {α : Type} [BEq α] (items listed : List α) : Prop :=
  listed.Pairwise fun first second => items.idxOf first < items.idxOf second

theorem InOrderOfAppearance.nodup {α : Type} [BEq α] {items listed : List α}
    (order : InOrderOfAppearance items listed) : listed.Nodup := by
  refine order.imp fun earlier same => ?_
  exact (same ▸ earlier).false

/-- One more item comes last, unless it has been there before. -/
theorem eraseDups_concat {α : Type} [BEq α] [LawfulBEq α] (items : List α) (item : α) :
    (items ++ [item]).eraseDups = if item ∈ items then items.eraseDups else items.eraseDups ++ [item] := by
  split
  case isTrue known => simp [List.eraseDups_append, List.removeAll, known]
  case isFalse new => simp [List.eraseDups_append, List.eraseDups_cons, List.removeAll, new]

theorem inOrderOfAppearance_eraseDups {α : Type} [BEq α] [LawfulBEq α] (items : List α) :
    InOrderOfAppearance items items.eraseDups := by
  induction items using List.reverseRecOn with
  | nil => exact .nil
  | append_singleton items item ih =>
    -- what comes later does not move the first appearance of anything
    have kept : InOrderOfAppearance (items ++ [item]) items.eraseDups := by
      refine ih.imp_of_mem fun first second lower => ?_
      rw [List.mem_eraseDups] at first second
      rwa [List.idxOf_append_of_mem first, List.idxOf_append_of_mem second]
    rw [eraseDups_concat]
    split
    case isTrue => exact kept
    case isFalse new =>
      refine List.pairwise_append.mpr ⟨kept, List.pairwise_singleton _ _, fun first earlier second last => ?_⟩
      rw [List.mem_eraseDups] at earlier
      rw [List.mem_singleton.mp last, List.idxOf_append_of_mem earlier, List.idxOf_append_of_notMem new]
      exact Nat.lt_add_right _ (List.idxOf_lt_length_iff.mpr earlier)

theorem lookup_rulesOf (productions : List Production) (name : Name) :
    (rulesOf productions).lookup name =
      if name ∈ headsOf productions then some (positionsOf productions name) else none :=
  lookup_tabulated (headsOf productions) (positionsOf productions) name

/-- The productions without terminals, among which the empty token list is derived. -/
def silent (productions : List Production) : List Production := productions.filter (·.literals.isEmpty)

theorem derives_nil_of_silent {productions : List Production} {body : Body}
    (tree : Derivation (silent productions) body) (mute : body.filterMap Symbol.text? = []) :
    Derives productions body [] := by
  induction tree with
  | nil => exact .nil
  | terminal => simp [Symbol.text?] at mute
  | node name production member heads _ _ ihChildren ihRest =>
    subst heads
    obtain ⟨member, empty⟩ := List.mem_filter.mp member
    exact .node member (ihChildren (List.isEmpty_iff.mp empty)) (ihRest mute)

theorem exists_silent {productions : List Production} {body : Body} {tokens : List String}
    (derives : Derives productions body tokens) (nothing : tokens = []) :
    body.filterMap Symbol.text? = [] ∧ Nonempty (Derivation (silent productions) body) := by
  induction derives using Derives.tree_induction with
  | nil => exact ⟨rfl, ⟨.nil⟩⟩
  | terminal => cases nothing
  | @node production _ _ _ member _ _ ihChildren ihRest =>
    obtain ⟨noFirst, noSecond⟩ := List.append_eq_nil_iff.mp nothing
    obtain ⟨muteBody, ⟨children⟩⟩ := ihChildren noFirst
    obtain ⟨mute, ⟨rest⟩⟩ := ihRest noSecond
    have silentMember : production ∈ silent productions :=
      List.mem_filter.mpr ⟨member, List.isEmpty_iff.mpr muteBody⟩
    exact ⟨mute, ⟨.node production.head production silentMember rfl children rest⟩⟩

theorem mem_nullablesOf {productions : List Production} {name : Name} :
    name ∈ nullablesOf productions ↔ Derives productions [.nonterminal name] [] := by
  refine Iff.trans (mem_heightsOf_iff name) ⟨?_, ?_⟩
  · intro derives
    obtain ⟨tree⟩ := derives
    exact derives_nil_of_silent tree rfl
  · exact fun derives => (exists_silent derives rfl).2

namespace Grammar

variable {grammar : Grammar}

theorem mem_alternatives {name : Name} {position : Nat} :
    position ∈ grammar.alternatives name ↔
      ∃ production, grammar.productions[position]? = some production ∧ production.head = name := by
  simp only [alternatives, grammar.rules_eq, lookup_rulesOf, ← Array.getElem?_toList]
  split
  case isTrue => simp [mem_positionsOf]
  case isFalse absent =>
    simp only [Option.getD_none, List.not_mem_nil, false_iff]
    intro entry
    obtain ⟨production, present, heads⟩ := entry
    exact absent (mem_headsOf.mpr ⟨production, List.mem_of_getElem? present, heads⟩)

theorem length_alternatives_le (grammar : Grammar) (name : Name) :
    (grammar.alternatives name).length ≤ grammar.productions.size := by
  have listed : (positionsOf grammar.productions.toList name).length ≤ grammar.productions.size := by
    simpa [positionsOf] using List.length_filterMap_le _ grammar.productions.toList.zipIdx
  rw [alternatives, grammar.rules_eq, lookup_rulesOf]
  split
  case isTrue => exact listed
  case isFalse => exact Nat.zero_le _

theorem contains_iff {name : Name} :
    grammar.contains name ↔ ∃ production ∈ grammar.productions.toList, production.head = name := by
  simp only [contains, grammar.rules_eq, lookup_rulesOf, ← mem_headsOf]
  split <;> simp_all

theorem isNullable_iff {name : Name} :
    grammar.isNullable name ↔ Derives grammar.productions.toList [.nonterminal name] [] := by
  simp only [isNullable, grammar.nullables_eq, List.contains_iff_mem, mem_nullablesOf]

theorem mem_productions {position : Nat} {production : Production}
    (present : grammar.productions[position]? = some production) : production ∈ grammar.productions.toList := by
  rw [← Array.getElem?_toList] at present
  exact List.mem_of_getElem? present

theorem productions_of_ofProductions {productions : List Production}
    (built : ofProductions productions = .ok grammar) : grammar.productions.toList = productions := by
  unfold ofProductions at built
  split at built
  case isTrue =>
    cases built
    rfl
  case isFalse => cases built

/-- Nothing else than completeness is asked of the productions of a grammar. -/
theorem ofProductions_of_complete {productions : List Production} (complete : Complete productions) :
    ofProductions productions = .ok (.ofComplete productions complete) :=
  dif_pos complete

end Grammar

end Viable
