import Viable.Proofs.Grammar.Rewriting

/-! How sentential forms begin. Whatever a form is rewritten to, a symbol behind some leading tokens is
found by going down the left edge of derivation trees, past what those tokens are derived from. -/

namespace Viable

/-- The form can be rewritten to one that begins with the tokens and then the target. -/
inductive Opens (productions : List Production) : Body → List String → Symbol → Prop where
  | here (target : Symbol) (rest : Body) : Opens productions (target :: rest) [] target
  | terminal (text : String) {rest : Body} {tokens : List String} {target : Symbol}
      (opens : Opens productions rest tokens target) :
      Opens productions (.terminal text :: rest) (text :: tokens) target
  | past {production : Production} (member : production ∈ productions) {rest : Body}
      {first second : List String} {target : Symbol} (children : Derives productions production.body first)
      (opens : Opens productions rest second target) :
      Opens productions (.nonterminal production.head :: rest) (first ++ second) target
  | into {production : Production} (member : production ∈ productions) (rest : Body)
      {tokens : List String} {target : Symbol} (opens : Opens productions production.body tokens target) :
      Opens productions (.nonterminal production.head :: rest) tokens target

namespace Opens

variable {productions : List Production} {target : Symbol}

theorem spell (tokens : List String) (rest : Body) : Opens productions (spell tokens ++ target :: rest) tokens target := by
  induction tokens with
  | nil => exact here target rest
  | cons token tokens ih => exact ih.terminal token

/-- The target is found in the first of two bodies, or behind all that the first derives. -/
theorem split {first second : Body} {tokens : List String}
    (opens : Opens productions (first ++ second) tokens target) :
    Opens productions first tokens target ∨
      ∃ left right, tokens = left ++ right ∧ Derives productions first left ∧
        Opens productions second right target := by
  induction first generalizing tokens with
  | nil => exact .inr ⟨[], tokens, rfl, .nil, opens⟩
  | cons symbol first ih =>
    cases opens with
    | here => exact .inl (here target first)
    | terminal text opens =>
      rcases ih opens with inFirst | ⟨left, right, rfl, derives, behind⟩
      · exact .inl (inFirst.terminal text)
      · exact .inr ⟨text :: left, right, rfl, derives.terminal text, behind⟩
    | past member children opens =>
      rcases ih opens with inFirst | ⟨left, right, rfl, derives, behind⟩
      · exact .inl (past member children inFirst)
      · exact .inr ⟨_, right, (List.append_assoc ..).symm, .node member children derives, behind⟩
    | into member _ opens => exact .inl (into member first opens)

theorem of_rewrites {form other : Body} {tokens : List String} (step : Rewrites productions form other)
    (opens : Opens productions other tokens target) : Opens productions form tokens target := by
  obtain ⟨before, after, production, member⟩ := step
  induction before generalizing tokens with
  | nil =>
    -- The replacement happened at the left end: the target is in the new body or behind it.
    rcases opens.split with inBody | ⟨left, right, rfl, derives, behind⟩
    · exact into member after inBody
    · exact past member derives behind
  | cons symbol before ih =>
    cases opens with
    | here => exact here _ _
    | terminal text opens => exact (ih opens).terminal text
    | past member children opens => exact past member children (ih opens)
    | into member _ opens => exact into member _ opens

theorem rewritesTo {form : Body} {tokens : List String} (opens : Opens productions form tokens target) :
    ∃ rest, RewritesTo productions form (Viable.spell tokens ++ target :: rest) := by
  induction opens with
  | here target rest => exact ⟨rest, .refl⟩
  | terminal text _ ih =>
    obtain ⟨rest, steps⟩ := ih
    exact ⟨rest, RewritesTo.cons (.terminal text) steps⟩
  | past member children _ ih =>
    obtain ⟨rest, steps⟩ := ih
    refine ⟨rest, ?_⟩
    rw [spell_append, List.append_assoc]
    exact .expand member children.rewritesTo steps
  | into member after _ ih =>
    obtain ⟨rest, steps⟩ := ih
    exact ⟨rest ++ after, by simpa using RewritesTo.expand member steps .refl⟩

/-- A token is found in a name by going into one of its productions. -/
theorem exists_production {name : Name} {tokens : List String} {token : String}
    (opens : Opens productions [.nonterminal name] tokens (.terminal token)) :
    ∃ production ∈ productions, production.head = name ∧ Opens productions production.body tokens (.terminal token) := by
  cases opens with
  | past _ _ opens => cases opens
  | @into production member _ _ _ opens => exact ⟨production, member, rfl, opens⟩

end Opens

theorem opens_iff_rewritesTo {productions : List Production} {form : Body} {tokens : List String}
    {target : Symbol} : Opens productions form tokens target ↔
      ∃ rest, RewritesTo productions form (spell tokens ++ target :: rest) := by
  constructor
  · exact Opens.rewritesTo
  · intro found
    obtain ⟨rest, steps⟩ := found
    induction steps using Relation.ReflTransGen.head_induction_on with
    | refl => exact .spell tokens rest
    | head step _ ih => exact .of_rewrites step ih

end Viable
