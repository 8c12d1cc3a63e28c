import Viable.Proofs.Grammar.Reachable

/-! Names with finite sentences. A sentential form can be finished when all of its names can, and what it begins
with is then the beginning of a sentence. -/

namespace Viable

/-- The name can be rewritten to some finite token list. -/
def Fruitful (productions : List Production) (name : Name) : Prop :=
  ∃ tokens, RewritesTo productions [.nonterminal name] (spell tokens)

/-- Whatever occurs in the sentential forms of the start is fruitful. -/
def Productive (productions : List Production) (start : Name) : Prop :=
  ∀ name, Occurs productions start name → Fruitful productions name

/-- The tokens come first in some sentence of the start. -/
def Begins (productions : List Production) (start : Name) (tokens : List String) : Prop :=
  ∃ rest, RewritesTo productions [.nonterminal start] (spell (tokens ++ rest))

variable {productions : List Production} {start : Name} {tokens : List String}

theorem Derives.fruitful {name : Name} (derives : Derives productions [.nonterminal name] tokens) :
    Fruitful productions name :=
  ⟨tokens, derives.rewritesTo⟩

theorem not_mem_spell {name : Name} (tokens : List String) : .nonterminal name ∉ spell tokens := by
  simp [spell]

/-- Symbol by symbol, each name is rewritten to a token list of its own. -/
theorem exists_rewritesTo_spell {form : Body}
    (fruitful : ∀ name, .nonterminal name ∈ form → Fruitful productions name) :
    ∃ tokens, RewritesTo productions form (spell tokens) := by
  induction form with
  | nil => exact ⟨[], .refl⟩
  | cons symbol form ih =>
    obtain ⟨rest, behind⟩ := ih fun name present => fruitful name (List.mem_cons_of_mem symbol present)
    cases symbol with
    | terminal text => exact ⟨text :: rest, behind.cons (.terminal text)⟩
    | nonterminal name =>
      obtain ⟨first, steps⟩ := fruitful name List.mem_cons_self
      refine ⟨first ++ rest, ?_⟩
      rw [spell_append]
      exact steps.append behind

/-- The tokens begin a sentence when some form begins with them and has only fruitful names behind them. -/
theorem begins_iff_exists_fruitful : Begins productions start tokens ↔
    ∃ rest, RewritesTo productions [.nonterminal start] (spell tokens ++ rest) ∧
      ∀ name, .nonterminal name ∈ rest → Fruitful productions name := by
  constructor
  · intro begins
    obtain ⟨rest, steps⟩ := begins
    rw [spell_append] at steps
    exact ⟨spell rest, steps, fun name present => absurd present (not_mem_spell rest)⟩
  · intro found
    obtain ⟨form, steps, fruitful⟩ := found
    obtain ⟨rest, finished⟩ := exists_rewritesTo_spell fruitful
    refine ⟨rest, ?_⟩
    rw [spell_append]
    exact steps.trans (RewritesTo.append .refl finished)

/-- Where everything is fruitful, a form can always be finished. -/
theorem Productive.begins (productive : Productive productions start) {rest : Body}
    (steps : RewritesTo productions [.nonterminal start] (spell tokens ++ rest)) :
    Begins productions start tokens :=
  begins_iff_exists_fruitful.mpr
    ⟨rest, steps, fun name present => productive name (.of_mem steps (List.mem_append_right _ present))⟩

theorem Productive.exists_head (productive : Productive productions start) :
    ∃ production ∈ productions, production.head = start := by
  obtain ⟨tokens, steps⟩ := productive start (.itself productions start)
  obtain ⟨production, member, heads, _⟩ := (derives_iff_rewritesTo.mpr steps).exists_production
  exact ⟨production, member, heads⟩

end Viable
