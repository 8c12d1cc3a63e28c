import Mathlib.Data.List.Induction
import Viable.Proofs.Grammar.Table
import Viable.Proofs.Grammar.Yield

/-! What a name derives whose productions are those of one choice, of one repetition or of one union. -/

namespace Viable

/-- The listed productions are there, and among the others none has that head. -/
structure DefinedBy (productions : List Production) (name : Name) (listed : List Production) : Prop where
  present : ∀ production ∈ listed, production ∈ productions
  only : ∀ production ∈ productions, production.head = name → production ∈ listed

namespace DefinedBy

variable {productions first second : List Production} {name : Name} {base iteration : Body} {tokens : List String}

theorem of_filter {listed : List Production} (alone : productions.filter (·.head = name) = listed) :
    DefinedBy productions name listed := by
  subst alone
  constructor
  · exact fun production listed => (List.mem_filter.mp listed).1
  · exact fun production member heads => List.mem_filter.mpr ⟨member, decide_eq_true heads⟩

/-- A name with the productions of a choice derives what one of the bodies derives. -/
theorem derives_choice_iff {bodies : List Body} (defined : DefinedBy productions name (bodies.map (⟨name, ·⟩))) :
    Derives productions [.nonterminal name] tokens ↔ ∃ body ∈ bodies, Derives productions body tokens := by
  constructor
  · intro derives
    obtain ⟨production, member, heads, children⟩ := derives.exists_production
    obtain ⟨body, present, rfl⟩ := List.mem_map.mp (defined.only production member heads)
    exact ⟨body, present, children⟩
  · rintro ⟨body, present, derives⟩
    exact .of_body (defined.present _ (List.mem_map_of_mem present)) derives

/-- In front of whatever follows it, a name with the productions of a repetition derives a base and then iterations. -/
theorem exists_iterations {form after : Body}
    (defined : DefinedBy productions name [⟨name, base⟩, ⟨name, .nonterminal name :: iteration⟩])
    (derives : Derives productions form tokens) (leads : form = .nonterminal name :: after) :
    ∃ (first : List String) (parts : List (List String)) (rest : List String),
      tokens = first ++ parts.flatten ++ rest ∧ Derives productions base first ∧
      (∀ part ∈ parts, Derives productions iteration part) ∧ Derives productions after rest := by
  induction derives using Derives.tree_induction generalizing after with
  | nil => cases leads
  | terminal => cases leads
  | @node production body first second member children rest ihChildren ihRest =>
    obtain ⟨named, rfl⟩ := List.cons.inj leads
    obtain rfl := Symbol.nonterminal.inj named
    obtain once | again := List.mem_pair.mp (defined.only production member rfl)
    · rw [once] at children
      exact ⟨first, [], second, by simp, children, by simp, rest⟩
    · obtain ⟨beginning, parts, last, rfl, based, iterated, further⟩ := ihChildren (congrArg Production.body again)
      refine ⟨beginning, parts ++ [last], second, by simp, based, ?_, rest⟩
      simpa [or_imp, forall_and] using ⟨iterated, further⟩

/-- A name with the productions of a repetition derives what a base and any number of iterations derive. -/
theorem derives_repetition_iff
    (defined : DefinedBy productions name [⟨name, base⟩, ⟨name, .nonterminal name :: iteration⟩]) :
    Derives productions [.nonterminal name] tokens ↔
      ∃ (first : List String) (parts : List (List String)), tokens = first ++ parts.flatten ∧
        Derives productions base first ∧ ∀ part ∈ parts, Derives productions iteration part := by
  constructor
  · intro derives
    obtain ⟨first, parts, rest, rfl, based, iterated, nothing⟩ := defined.exists_iterations derives rfl
    exact ⟨first, parts, by rw [nothing.eq_nil, List.append_nil], based, iterated⟩
  · rintro ⟨first, parts, rfl, based, iterated⟩
    induction parts using List.reverseRecOn with
    | nil => simpa using Derives.of_body (defined.present _ (List.mem_pair.mpr (.inl rfl))) based
    | append_singleton parts part ih =>
      have earlier := ih fun other present => iterated other (List.mem_append_left _ present)
      have further := earlier.append (iterated part (by simp))
      simpa using Derives.of_body (defined.present _ (List.mem_pair.mpr (.inr rfl))) further

/-- A name with the productions of a union derives what one of the merged heads derives. It may be one of them. -/
theorem derives_union_iff
    (defined : DefinedBy productions name
      (first ++ second ++ (headsOf (first ++ second)).map fun other => ⟨name, [.nonterminal other]⟩)) :
    Derives productions [.nonterminal name] tokens ↔
      ∃ other ∈ headsOf (first ++ second), Derives productions [.nonterminal other] tokens := by
  constructor
  · intro derives
    obtain ⟨production, member, heads, children⟩ := derives.exists_production
    obtain merged | redirect := List.mem_append.mp (defined.only production member heads)
    -- the name is a merged head itself
    · exact ⟨name, mem_headsOf.mpr ⟨production, merged, heads⟩, derives⟩
    · obtain ⟨other, listed, rfl⟩ := List.mem_map.mp redirect
      exact ⟨other, listed, children⟩
  · rintro ⟨other, listed, derives⟩
    have redirect : (⟨name, [.nonterminal other]⟩ : Production) ∈ productions :=
      defined.present _ (List.mem_append_right _ (List.mem_map_of_mem listed))
    exact .of_body redirect derives

end DefinedBy

end Viable
