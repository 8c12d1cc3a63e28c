import Viable.Proofs.Grammar.Combinators
import Viable.Proofs.Grammar.Hygiene
import Viable.Proofs.Session.Recognition

/-! What sessions accept that start from the head of a combinator: a base and then iterations, one of several bodies,
or what is accepted from one of the merged heads. -/

namespace Viable.Builder

open Session

theorem listed_choice (builder : Builder) (bodies : List Body) (head : Option Name) :
    ((choice bodies head).run builder).1 = bodies.map (⟨builder.headFor head, ·⟩) := by
  cases head <;> rfl

theorem listed_repetition (builder : Builder) (base iteration : Body) (head : Option Name) :
    ((repetition base iteration head).run builder).1 =
      [⟨builder.headFor head, base⟩,
        ⟨builder.headFor head, .nonterminal (builder.headFor head) :: iteration⟩] := by
  cases head <;> rfl

theorem listed_union (builder : Builder) (first second : List Production) (head : Option Name) :
    ((union first second head).run builder).1 = first ++ second ++
      (headsOf (first ++ second)).map fun name => ⟨builder.headFor head, [.nonterminal name]⟩ := by
  cases head <;> rfl

/-- From a head whose productions are those of a repetition, a session can be started, and it accepts what falls
apart into one token list of the base and any number of token lists of the iteration. -/
theorem accepts_repetition_iff (builder : Builder) (base iteration : Body) (head : Option Name)
    {productions : List Production} {grammar : Grammar} (built : Grammar.ofProductions productions = .ok grammar)
    (defined : DefinedBy productions (builder.headFor head) ((repetition base iteration head).run builder).1) :
    (∃ initial, ofStart grammar (builder.headFor head) = .ok initial) ∧
    ∀ tokens, Accepts grammar (builder.headFor head) tokens ↔
      ∃ (first : List String) (parts : List (List String)), tokens = first ++ parts.flatten ∧
        Derives productions base first ∧ ∀ part ∈ parts, Derives productions iteration part := by
  have known := Grammar.productions_of_ofProductions built
  subst known
  rw [listed_repetition] at defined
  constructor
  · exact exists_initial ⟨_, defined.present _ List.mem_cons_self, rfl⟩
  · intro tokens
    rw [accepts_iff_derives, defined.derives_repetition_iff]

/-- Balanced parentheses, with an allocated head that the iteration mentions as well. -/
def balanced : List Production :=
  ((repetition [] [.terminal "(", .nonterminal (.fresh 1), .terminal ")"] none).run empty).1

theorem complete_balanced : Complete balanced := by decide

theorem accepts_balanced : ∃ grammar, Grammar.ofProductions balanced = .ok grammar ∧
    Accepts grammar (.fresh 1) ["(", "(", ")", ")", "(", ")"] := by
  have built := Grammar.ofProductions_of_complete complete_balanced
  have defined : DefinedBy balanced (.fresh 1) balanced := ⟨fun _ listed => listed, fun _ member _ => member⟩
  have wrap {inside : List String} (derives : Derives balanced [.nonterminal (.fresh 1)] inside) :
      Derives balanced [.terminal "(", .nonterminal (.fresh 1), .terminal ")"] ("(" :: (inside ++ [")"])) :=
    (derives.append (.spell [")"])).terminal "("
  have nothing : Derives balanced [.nonterminal (.fresh 1)] [] :=
    .of_body (show ⟨.fresh 1, []⟩ ∈ balanced by decide) .nil
  have pair : Derives balanced [.nonterminal (.fresh 1)] ["(", ")"] :=
    defined.derives_repetition_iff.mpr ⟨[], [["(", ")"]], rfl, .nil, by simpa using wrap nothing⟩
  obtain ⟨_, accepts⟩ := accepts_repetition_iff empty [] [.terminal "(", .nonterminal (.fresh 1), .terminal ")"] none
    built defined
  refine ⟨_, built, (accepts _).mpr ⟨[], [["(", "(", ")", ")"], ["(", ")"]], rfl, .nil, ?_⟩⟩
  simpa using ⟨wrap pair, wrap nothing⟩

/-- Choices and unions denote unions. From a head whose productions are those of a choice, a session accepts what one
of the bodies derives. A union lists both production lists and then one redirection to each head among them, in order
of first appearance. From a head that has no productions but those of the union, and may be one of the merged heads
itself, a session accepts what some session from a merged head accepts. -/
theorem accepts_unions :
    (∀ (builder : Builder) (bodies : List Body) (head : Option Name) (productions : List Production)
      (grammar : Grammar), Grammar.ofProductions productions = .ok grammar →
      DefinedBy productions (builder.headFor head) ((choice bodies head).run builder).1 →
      ∀ tokens, Accepts grammar (builder.headFor head) tokens ↔ ∃ body ∈ bodies, Derives productions body tokens) ∧
    ∀ (builder : Builder) (first second : List Production) (head : Option Name),
      (∃ names, ((union first second head).run builder).1 =
          first ++ second ++ names.map (fun name => ⟨builder.headFor head, [.nonterminal name]⟩) ∧
        (∀ name, name ∈ names ↔ ∃ production ∈ first ++ second, production.head = name) ∧
        InOrderOfAppearance ((first ++ second).map (·.head)) names) ∧
      ∀ (productions : List Production) (grammar : Grammar), Grammar.ofProductions productions = .ok grammar →
        DefinedBy productions (builder.headFor head) ((union first second head).run builder).1 →
        ∀ tokens, Accepts grammar (builder.headFor head) tokens ↔
          ∃ name, (∃ production ∈ first ++ second, production.head = name) ∧ Accepts grammar name tokens := by
  refine ⟨?_, fun builder first second head => ⟨?_, ?_⟩⟩
  · intro builder bodies head productions grammar built defined tokens
    have known := Grammar.productions_of_ofProductions built
    subst known
    rw [listed_choice] at defined
    rw [accepts_iff_derives, defined.derives_choice_iff]
  · exact ⟨headsOf (first ++ second), listed_union .., fun _ => mem_headsOf, inOrderOfAppearance_eraseDups _⟩
  · intro productions grammar built defined tokens
    have known := Grammar.productions_of_ofProductions built
    subst known
    rw [listed_union] at defined
    simp only [accepts_iff_derives, defined.derives_union_iff, mem_headsOf]

/-- A word that may be an empty mark, merged under its own name. -/
def marked : List Production :=
  ((union [⟨.given "word", [.nonterminal (.given "word"), .terminal "a"]⟩] [⟨.given "mark", []⟩]
    (some (.given "word"))).run empty).1

theorem complete_marked : Complete marked := by decide

theorem accepts_marked : ∃ grammar, Grammar.ofProductions marked = .ok grammar ∧
    Accepts grammar (.given "mark") [] ∧ Accepts grammar (.given "word") [] := by
  have built := Grammar.ofProductions_of_complete complete_marked
  obtain ⟨chosen, merged⟩ := accepts_unions
  have mark := (chosen empty [[]] (some (.given "mark")) marked _ built ⟨by decide, by decide⟩ []).mpr
    ⟨[], List.mem_cons_self, .nil⟩
  obtain ⟨_, accepts⟩ := merged empty [⟨.given "word", [.nonterminal (.given "word"), .terminal "a"]⟩]
    [⟨.given "mark", []⟩] (some (.given "word"))
  have word := (accepts marked _ built ⟨by decide, by decide⟩ []).mpr
    ⟨.given "mark", ⟨⟨.given "mark", []⟩, by decide, rfl⟩, mark⟩
  exact ⟨_, built, mark, word⟩

end Viable.Builder
