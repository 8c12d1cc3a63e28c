import Mathlib.Logic.Relation
import Viable.Grammar.Derivation

/-! Sentential forms. A form is rewritten by replacing one nonterminal at a time, and the token lists that
can be rewritten from a body are those at the leaves of its derivation trees. -/

namespace Viable

/-- One nonterminal of a sentential form is replaced by the body of one of its productions. -/
inductive Rewrites (productions : List Production) : Body → Body → Prop where
  | replace (before after : Body) (production : Production) (member : production ∈ productions) :
      Rewrites productions (before ++ .nonterminal production.head :: after)
        (before ++ production.body ++ after)

/-- Any number of replacements, one after the other. -/
abbrev RewritesTo (productions : List Production) : Body → Body → Prop :=
  Relation.ReflTransGen (Rewrites productions)

/-- The sentential form without nonterminals that a token list is. -/
def spell (tokens : List String) : Body := tokens.map .terminal

@[simp] theorem spell_nil : spell [] = [] := rfl

@[simp] theorem spell_cons (token : String) (tokens : List String) :
    spell (token :: tokens) = .terminal token :: spell tokens := rfl

@[simp] theorem spell_append (first second : List String) :
    spell (first ++ second) = spell first ++ spell second := List.map_append

variable {productions : List Production}

namespace Rewrites

theorem frame (before after : Body) {form other : Body} (step : Rewrites productions form other) :
    Rewrites productions (before ++ form ++ after) (before ++ other ++ after) := by
  obtain ⟨left, right, production, member⟩ := step
  simpa only [List.append_assoc, List.cons_append] using
    Rewrites.replace (before ++ left) (right ++ after) production member

end Rewrites

namespace RewritesTo

/-- What is rewritten inside of a form leaves the rest of the form alone. -/
theorem frame (before after : Body) {form other : Body} (steps : RewritesTo productions form other) :
    RewritesTo productions (before ++ form ++ after) (before ++ other ++ after) :=
  steps.lift (fun middle => before ++ middle ++ after) (fun _ _ step => step.frame before after)

theorem append {first second first' second' : Body} (left : RewritesTo productions first first')
    (right : RewritesTo productions second second') :
    RewritesTo productions (first ++ second) (first' ++ second') := by
  have leftStep := frame [] second left
  have rightStep := frame first' [] right
  simp only [List.nil_append, List.append_nil] at leftStep rightStep
  exact leftStep.trans rightStep

theorem cons (symbol : Symbol) {form other : Body} (steps : RewritesTo productions form other) :
    RewritesTo productions (symbol :: form) (symbol :: other) := by
  simpa using frame [symbol] [] steps

/-- The first symbol is replaced, and then its body and what stands behind it are rewritten. -/
theorem expand {production : Production} (member : production ∈ productions) {rest form other : Body}
    (inside : RewritesTo productions production.body form) (behind : RewritesTo productions rest other) :
    RewritesTo productions (.nonterminal production.head :: rest) (form ++ other) :=
  .head (Rewrites.replace [] rest production member) (append inside behind)

end RewritesTo

namespace Derives

theorem nil : Derives productions [] [] := ⟨.nil, rfl⟩

theorem terminal (text : String) {body : Body} {tokens : List String} (rest : Derives productions body tokens) :
    Derives productions (.terminal text :: body) (text :: tokens) := by
  obtain ⟨tree, rfl⟩ := rest
  exact ⟨.terminal text tree, rfl⟩

theorem node {production : Production} (member : production ∈ productions) {body : Body}
    {first second : List String} (children : Derives productions production.body first)
    (rest : Derives productions body second) :
    Derives productions (.nonterminal production.head :: body) (first ++ second) := by
  obtain ⟨tree, rfl⟩ := children
  obtain ⟨forest, rfl⟩ := rest
  exact ⟨.node production.head production member rfl tree forest, rfl⟩

theorem of_body {production : Production} (member : production ∈ productions) {tokens : List String}
    (children : Derives productions production.body tokens) :
    Derives productions [.nonterminal production.head] tokens := by
  simpa using node member children nil

theorem spell (tokens : List String) : Derives productions (spell tokens) tokens := by
  induction tokens with
  | nil => exact nil
  | cons token rest ih => exact ih.terminal token

/-- Induction on the derivation trees, in terms of the token lists alone. -/
@[elab_as_elim]
theorem tree_induction {motive : ∀ body tokens, Derives productions body tokens → Prop}
    {body : Body} {tokens : List String} (derives : Derives productions body tokens)
    (nil : motive [] [] .nil)
    (terminal : ∀ text {body tokens} (rest : Derives productions body tokens), motive body tokens rest →
      motive (.terminal text :: body) (text :: tokens) (rest.terminal text))
    (node : ∀ {production body first second} (member : production ∈ productions)
      (children : Derives productions production.body first) (rest : Derives productions body second),
      motive production.body first children → motive body second rest →
      motive (.nonterminal production.head :: body) (first ++ second) (.node member children rest)) :
    motive body tokens derives := by
  obtain ⟨tree, rfl⟩ := derives
  induction tree with
  | nil => exact nil
  | terminal text rest ih => exact terminal text ⟨rest, rfl⟩ ih
  | node name production member heads children rest ihChildren ihRest =>
    subst heads
    exact node member ⟨children, rfl⟩ ⟨rest, rfl⟩ ihChildren ihRest

theorem append {first second : Body} {left right : List String} (derives : Derives productions first left)
    (follows : Derives productions second right) : Derives productions (first ++ second) (left ++ right) := by
  induction derives using tree_induction with
  | nil => exact follows
  | terminal text _ ih => exact ih.terminal text
  | node member children _ _ ih =>
    rw [List.append_assoc]
    exact node member children ih

/-- What a body derives falls apart where the body does. -/
theorem split {first second : Body} {tokens : List String}
    (derives : Derives productions (first ++ second) tokens) :
    ∃ left right, tokens = left ++ right ∧ Derives productions first left ∧
      Derives productions second right := by
  induction first generalizing tokens with
  | nil => exact ⟨[], tokens, rfl, nil, derives⟩
  | cons symbol first ih =>
    obtain ⟨tree, rfl⟩ := derives
    cases tree with
    | terminal text rest =>
      obtain ⟨left, right, same, derivesLeft, derivesRight⟩ := ih ⟨rest, rfl⟩
      exact ⟨text :: left, right, congrArg (text :: ·) same, derivesLeft.terminal text, derivesRight⟩
    | node name production member heads children rest =>
      subst heads
      obtain ⟨left, right, same, derivesLeft, derivesRight⟩ := ih ⟨rest, rfl⟩
      refine ⟨children.tokens ++ left, right, ?_, node member ⟨children, rfl⟩ derivesLeft, derivesRight⟩
      rw [List.append_assoc, ← same]
      rfl

theorem exists_production {name : Name} {tokens : List String}
    (derives : Derives productions [.nonterminal name] tokens) :
    ∃ production ∈ productions, production.head = name ∧ Derives productions production.body tokens := by
  obtain ⟨tree, rfl⟩ := derives
  cases tree with
  | node _ production member heads children rest =>
    cases rest
    exact ⟨production, member, heads, children, (List.append_nil _).symm⟩

theorem rewritesTo {body : Body} {tokens : List String} (derives : Derives productions body tokens) :
    RewritesTo productions body (Viable.spell tokens) := by
  induction derives using tree_induction with
  | nil => exact .refl
  | terminal text _ ih => exact ih.cons (.terminal text)
  | node member _ _ ihChildren ihRest =>
    rw [spell_append]
    exact .expand member ihChildren ihRest

/-- Undoing one replacement: the replaced nonterminal becomes the root of the trees of its body. -/
theorem of_rewrites {form other : Body} {tokens : List String} (step : Rewrites productions form other)
    (derives : Derives productions other tokens) : Derives productions form tokens := by
  obtain ⟨before, after, production, member⟩ := step
  obtain ⟨_, right, rfl, derivesFront, derivesAfter⟩ := derives.split
  obtain ⟨left, middle, rfl, derivesBefore, derivesBody⟩ := derivesFront.split
  rw [List.append_assoc]
  exact derivesBefore.append (node member derivesBody derivesAfter)

end Derives

/-- Derivation trees and rewriting yield the same token lists. -/
theorem derives_iff_rewritesTo {body : Body} {tokens : List String} :
    Derives productions body tokens ↔ RewritesTo productions body (spell tokens) := by
  constructor
  · exact Derives.rewritesTo
  · intro steps
    induction steps using Relation.ReflTransGen.head_induction_on with
    | refl => exact .spell tokens
    | head step _ ih => exact .of_rewrites step ih

end Viable
