import Mathlib.Algebra.BigOperators.Group.List.Basic
import Mathlib.Algebra.Ring.Int.Defs
import Viable.Proofs.Grammar.Rewriting

/-! What can be told about a derived token list from the bodies of the productions one by one: which tokens it
consists of, what they weigh together, and how it ends. -/

namespace Viable

variable {productions : List Production} {body : Body} {tokens : List String}

/-- A derived token consists of nothing but terminals of the productions and of the body. -/
theorem Derives.forall_mem {good : String → Prop} (derives : Derives productions body tokens)
    (literals : ∀ production ∈ productions, ∀ text ∈ production.literals, good text)
    (own : ∀ text ∈ body.filterMap Symbol.text?, good text) : ∀ token ∈ tokens, good token := by
  induction derives using Derives.tree_induction with
  | nil => exact fun _ absent => absurd absent List.not_mem_nil
  | terminal text _ ih =>
    simp only [List.filterMap_cons, Symbol.text?, List.forall_mem_cons] at own ⊢
    exact ⟨own.1, ih own.2⟩
  | @node production _ _ _ member _ _ ihChildren ihRest =>
    intro token present
    rcases List.mem_append.mp present with inChildren | inRest
    · exact ihChildren (literals production member) token inChildren
    · exact ihRest own token inRest

/-- The weights of the symbols of a body, together. -/
def weigh (weight : Symbol → Int) (body : Body) : Int := (body.map weight).sum

@[simp] theorem weigh_nil (weight : Symbol → Int) : weigh weight [] = 0 := rfl

@[simp] theorem weigh_cons (weight : Symbol → Int) (symbol : Symbol) (body : Body) :
    weigh weight (symbol :: body) = weight symbol + weigh weight body := by
  simp [weigh]

@[simp] theorem weigh_append (weight : Symbol → Int) (first second : Body) :
    weigh weight (first ++ second) = weigh weight first + weigh weight second := by
  simp [weigh]

/-- Each name weighs as much as the bodies that stand for it. -/
def Balanced (productions : List Production) (weight : Symbol → Int) : Prop :=
  ∀ production ∈ productions, weigh weight production.body = weight (.nonterminal production.head)

instance (productions : List Production) (weight : Symbol → Int) : Decidable (Balanced productions weight) :=
  inferInstanceAs (Decidable (∀ production ∈ productions,
    weigh weight production.body = weight (.nonterminal production.head)))

/-- Then no replacement changes the weight. -/
theorem Balanced.weigh_eq {weight : Symbol → Int} (balanced : Balanced productions weight)
    (derives : Derives productions body tokens) : weigh weight (spell tokens) = weigh weight body := by
  induction derives using Derives.tree_induction with
  | nil => rfl
  | terminal text _ ih => rw [spell_cons, weigh_cons, weigh_cons, ih]
  | node member _ _ ihChildren ihRest =>
    rw [spell_append, weigh_append, weigh_cons, ihChildren, ihRest, balanced _ member]

/-- The last symbol is one of certain tokens, or a name whose lists end with one of them. -/
def Closes (last : String → Bool) (names : List Name) : Symbol → Bool
  | .terminal text => last text
  | .nonterminal name => name ∈ names

/-- Each body of certain names closes with one of certain tokens, or with one of these names again. -/
def ClosedBy (productions : List Production) (last : String → Bool) (names : List Name) : Prop :=
  ∀ production ∈ productions, production.head ∈ names → production.body.getLast?.any (Closes last names)

instance (productions : List Production) (last : String → Bool) (names : List Name) :
    Decidable (ClosedBy productions last names) :=
  inferInstanceAs (Decidable (∀ production ∈ productions, production.head ∈ names →
    production.body.getLast?.any (Closes last names)))

theorem ClosedBy.nil (productions : List Production) (last : String → Bool) : ClosedBy productions last [] :=
  fun _ _ absent => absurd absent List.not_mem_nil

theorem any_getLast?_append {α : Type} {good : α → Bool} (first : List α) {second : List α}
    (ends : second.getLast?.any good) : (first ++ second).getLast?.any good := by
  obtain ⟨last, found, holds⟩ := (Option.any_eq_true _ _).mp ends
  rw [List.getLast?_append, found]
  exact holds

theorem Derives.eq_nil (derives : Derives productions [] tokens) : tokens = [] := by
  obtain ⟨tree, rfl⟩ := derives
  cases tree
  rfl

/-- Tokens derive nothing but themselves. -/
theorem Derives.eq_of_spell {texts : List String} (derives : Derives productions (Viable.spell texts) tokens) :
    tokens = texts := by
  induction texts generalizing tokens with
  | nil => exact derives.eq_nil
  | cons text texts ih =>
    obtain ⟨tree, rfl⟩ := derives
    cases tree with
    | terminal _ rest => exact congrArg (text :: ·) (ih ⟨rest, rfl⟩)

/-- Then their token lists are not empty and end so. -/
theorem ClosedBy.getLast? {last : String → Bool} {names : List Name} (closed : ClosedBy productions last names)
    (derives : Derives productions body tokens) (closes : body.getLast?.any (Closes last names)) :
    tokens.getLast?.any last := by
  induction derives using Derives.tree_induction with
  | nil => exact closes
  | @terminal text body tokens rest ih =>
    cases body with
    | nil =>
      rw [rest.eq_nil]
      exact closes
    | cons symbol body =>
      rw [List.getLast?_cons_cons] at closes
      exact any_getLast?_append [text] (ih closes)
  | @node production body first second member children rest ihChildren ihRest =>
    cases body with
    | nil =>
      rw [rest.eq_nil, List.append_nil]
      exact ihChildren (closed production member (by simpa [Closes] using closes))
    | cons symbol body =>
      rw [List.getLast?_cons_cons] at closes
      exact any_getLast?_append first (ihRest closes)

end Viable
