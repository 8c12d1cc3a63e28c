import Viable.Grammar.Reachable
import Viable.Proofs.Grammar.Rewriting
import Viable.Proofs.Grammar.Table
import Viable.Proofs.Worklist

/-! The nonterminals that occur in the sentential forms of a start are those that a search over the bodies finds,
and the productions of the other nonterminals have no part in any derivation from the start. -/

namespace Viable

/-- Some sentential form of the start mentions the name. -/
def Occurs (productions : List Production) (start name : Name) : Prop :=
  ∃ before after, RewritesTo productions [.nonterminal start] (before ++ .nonterminal name :: after)

theorem Production.mem_references {production : Production} {name : Name} :
    name ∈ production.references ↔ .nonterminal name ∈ production.body := by
  rw [references, List.mem_filterMap]
  constructor
  · intro mentioned
    obtain ⟨symbol, present, same⟩ := mentioned
    cases symbol with
    | terminal => cases same
    | nonterminal other => exact Option.some.inj same ▸ present
  · exact fun present => ⟨_, present, rfl⟩

variable {productions others : List Production} {start name : Name}

/-- A name in a rewritten form was there before, or is mentioned by the production that was put in. -/
theorem Rewrites.mem_cases {form other : Body} (step : Rewrites productions form other)
    (present : .nonterminal name ∈ other) : .nonterminal name ∈ form ∨
      ∃ production ∈ productions, .nonterminal production.head ∈ form ∧ name ∈ production.references := by
  obtain ⟨before, after, production, member⟩ := step
  simp only [List.mem_append, List.mem_cons] at present ⊢
  rcases present with (early | inside) | late
  · exact .inl (.inl early)
  · exact .inr ⟨production, member, .inr (.inl rfl), Production.mem_references.mpr inside⟩
  · exact .inl (.inr (.inr late))

namespace Occurs

theorem of_mem {form : Body} (steps : RewritesTo productions [.nonterminal start] form)
    (present : .nonterminal name ∈ form) : Occurs productions start name := by
  obtain ⟨before, after, rfl⟩ := List.append_of_mem present
  exact ⟨before, after, steps⟩

theorem itself (productions : List Production) (start : Name) : Occurs productions start start :=
  of_mem .refl (List.mem_singleton_self _)

/-- Whatever is mentioned by a production of an occurring name occurs as well. -/
theorem reference {production : Production} (occurs : Occurs productions start production.head)
    (member : production ∈ productions) (mentioned : name ∈ production.references) :
    Occurs productions start name := by
  obtain ⟨before, after, steps⟩ := occurs
  refine of_mem (steps.tail (.replace before after production member)) ?_
  simp [Production.mem_references.mp mentioned]

/-- Induction along the mentions. The forms themselves need not be looked at. -/
@[elab_as_elim]
theorem induction {motive : ∀ name, Occurs productions start name → Prop} (occurs : Occurs productions start name)
    (itself : motive start (.itself productions start))
    (reference : ∀ {production other} (occurs : Occurs productions start production.head)
      (member : production ∈ productions) (mentioned : other ∈ production.references),
      motive production.head occurs → motive other (occurs.reference member mentioned)) :
    motive name occurs := by
  have along {form : Body} (steps : RewritesTo productions [.nonterminal start] form) :
      ∀ name, .nonterminal name ∈ form → ∀ occurs, motive name occurs := by
    induction steps with
    | refl =>
      intro name present _
      cases List.mem_singleton.mp present
      exact itself
    | tail steps step ih =>
      intro name present _
      rcases step.mem_cases present with earlier | ⟨production, member, head, mentioned⟩
      · exact ih name earlier _
      · exact reference (of_mem steps head) member mentioned (ih production.head head _)
  obtain ⟨before, after, steps⟩ := occurs
  exact along steps name (by simp) _

/-- Nothing occurs outside of names that mention only each other. -/
theorem mem_of_closed {names : List Name} (occurs : Occurs productions start name) (first : start ∈ names)
    (closed : ∀ production ∈ productions, production.head ∈ names → ∀ other ∈ production.references, other ∈ names) :
    name ∈ names := by
  induction occurs using Occurs.induction with
  | itself => exact first
  | @reference production other _ member mentioned ih => exact closed production member ih other mentioned

end Occurs

/-- The productions whose heads occur are all that derivations from the start make use of. -/
theorem RewritesTo.of_occurs {form : Body}
    (kept : ∀ production ∈ productions, Occurs productions start production.head → production ∈ others)
    (steps : RewritesTo productions [.nonterminal start] form) : RewritesTo others [.nonterminal start] form := by
  induction steps with
  | refl => exact .refl
  | tail earlier step ih =>
    obtain ⟨before, after, production, member⟩ := step
    exact ih.tail (.replace before after production (kept production member ⟨before, after, earlier⟩))

/-- Two production lists agree from a start when they have the same productions of occurring names. -/
def AgreeFrom (start : Name) (productions others : List Production) : Prop :=
  ∀ production, production ∈ productions ∧ Occurs productions start production.head ↔
    production ∈ others ∧ Occurs others start production.head

/-- Lists that agree have the same sentential forms. -/
theorem AgreeFrom.rewritesTo_iff (agree : AgreeFrom start productions others) {form : Body} :
    RewritesTo productions [.nonterminal start] form ↔ RewritesTo others [.nonterminal start] form := by
  constructor
  · exact RewritesTo.of_occurs fun production member occurs => ((agree production).mp ⟨member, occurs⟩).1
  · exact RewritesTo.of_occurs fun production member occurs => ((agree production).mpr ⟨member, occurs⟩).1

namespace Grammar

variable {grammar : Grammar}

theorem nonterminals_eq (grammar : Grammar) : grammar.nonterminals = headsOf grammar.productions.toList := by
  rw [nonterminals, grammar.rules_eq, rulesOf, List.map_map]
  exact List.map_id _

theorem mem_nonterminals : name ∈ grammar.nonterminals ↔ grammar.contains name := by
  rw [nonterminals_eq, mem_headsOf, contains_iff]

theorem mem_mentions {head : Name} : name ∈ grammar.mentions head ↔
    ∃ production ∈ grammar.productions.toList, production.head = head ∧ name ∈ production.references := by
  rw [mentions, List.mem_flatMap]
  constructor
  · intro mentioned
    obtain ⟨position, alternative, mentioned⟩ := mentioned
    obtain ⟨production, present, heads⟩ := mem_alternatives.mp alternative
    rw [present] at mentioned
    exact ⟨production, mem_productions present, heads, mentioned⟩
  · intro mentioned
    obtain ⟨production, member, heads, mentioned⟩ := mentioned
    obtain ⟨position, present⟩ := List.getElem?_of_mem member
    rw [Array.getElem?_toList] at present
    exact ⟨position, mem_alternatives.mpr ⟨production, present, heads⟩, by rw [present]; exact mentioned⟩

theorem reached_iff_occurs :
    Reached grammar.mentions [start] name ↔ Occurs grammar.productions.toList start name := by
  constructor
  · intro reached
    induction reached with
    | initial member =>
      cases List.mem_singleton.mp member
      exact .itself _ start
    | step _ successor ih =>
      obtain ⟨production, member, rfl, mentioned⟩ := mem_mentions.mp successor
      exact ih.reference member mentioned
  · intro occurs
    induction occurs using Occurs.induction with
    | itself => exact .initial (List.mem_singleton_self start)
    | reference _ member mentioned ih => exact ih.step (mem_mentions.mpr ⟨_, member, rfl, mentioned⟩)

/-- What occurs is the start itself, or a head. -/
theorem eq_or_mem_of_occurs (occurs : Occurs grammar.productions.toList start name) :
    name = start ∨ name ∈ grammar.nonterminals := by
  induction occurs using Occurs.induction with
  | itself => exact .inl rfl
  | @reference production other _ member mentioned _ =>
    have head := grammar.complete production member other mentioned
    exact .inr (mem_nonterminals.mpr (contains_iff.mpr (mem_headsOf.mp head)))

theorem contains_of_occurs (contained : grammar.contains start)
    (occurs : Occurs grammar.productions.toList start name) : grammar.contains name := by
  rcases eq_or_mem_of_occurs occurs with same | head
  · exact same ▸ contained
  · exact mem_nonterminals.mp head

/-- What a search can come to is the start and the heads. -/
theorem mem_cons_of_reached (reached : Reached grammar.mentions [start] name) :
    name ∈ start :: grammar.nonterminals :=
  List.mem_cons.mpr (eq_or_mem_of_occurs (reached_iff_occurs.mp reached))

/-- The search has room for the start and all heads, so it finds whatever occurs. -/
theorem mem_reachableFrom_iff :
    name ∈ grammar.reachableFrom start ↔ Occurs grammar.productions.toList start name := by
  have enough : (start :: grammar.nonterminals).length ≤ grammar.rules.length + 1 := by simp [nonterminals]
  exact (mem_saturate_iff (fun _ => mem_cons_of_reached) enough name).trans reached_iff_occurs

/-- The heads that are reported are those that do not occur. -/
theorem mem_unreachableFrom_iff : name ∈ grammar.unreachableFrom start ↔
    grammar.contains name ∧ ¬Occurs grammar.productions.toList start name := by
  simp only [unreachableFrom, List.mem_filter, mem_nonterminals, mem_reachableFrom_iff, decide_eq_true_eq]

theorem inOrderOfAppearance_unreachableFrom (grammar : Grammar) (start : Name) :
    InOrderOfAppearance (grammar.productions.toList.map (·.head)) (grammar.unreachableFrom start) := by
  rw [unreachableFrom, nonterminals_eq]
  exact (inOrderOfAppearance_eraseDups _).filter _

theorem not_mem_unreachableFrom_iff {production : Production} (member : production ∈ grammar.productions.toList) :
    production.head ∉ grammar.unreachableFrom start ↔ Occurs grammar.productions.toList start production.head := by
  have contained := contains_iff.mpr ⟨production, member, rfl⟩
  rw [mem_unreachableFrom_iff, not_and, not_not]
  exact ⟨fun occurs => occurs contained, fun occurs _ => occurs⟩

/-- The search for the names that occur from a start ends, in whatever order the names that wait are taken, and it ends
with the same names found. The heads that it leaves are reported, once each and in the order in which they appear
first: those that no sentential form of the start mentions, where the start itself is such a form. -/
theorem unreachableFrom_exact {productions : List Production} {grammar : Grammar}
    (built : ofProductions productions = .ok grammar) (start : Name) :
    Acc (fun next list => Worklist.Turn grammar.mentions list next) (.start [start]) ∧
    (∃ found, Worklist.Ends grammar.mentions [start] found) ∧
    (∀ found, Worklist.Ends grammar.mentions [start] found →
      grammar.unreachableFrom start = grammar.nonterminals.filter (· ∉ found)) ∧
    InOrderOfAppearance (productions.map (·.head)) (grammar.unreachableFrom start) ∧
    (grammar.unreachableFrom start).Nodup ∧
    ∀ name, name ∈ grammar.unreachableFrom start ↔ (∃ production ∈ productions, production.head = name) ∧
      ∀ form, RewritesTo productions [.nonterminal start] form → .nonterminal name ∉ form := by
  have same := productions_of_ofProductions built
  subst same
  have order := inOrderOfAppearance_unreachableFrom grammar start
  refine ⟨Worklist.acc_turn (fun _ => mem_cons_of_reached) (Worklist.sound_start _ _),
    Worklist.exists_ends fun _ => mem_cons_of_reached, fun found ends => ?_, order, order.nodup, fun name => ?_⟩
  · refine List.filter_congr fun name _ => decide_eq_decide.mpr (not_congr ?_)
    rw [mem_reachableFrom_iff, ends.mem_iff, reached_iff_occurs]
  · rw [mem_unreachableFrom_iff, contains_iff]
    refine and_congr_right fun _ => ?_
    constructor
    · exact fun absent form steps present => absent (.of_mem steps present)
    · intro absent occurs
      obtain ⟨before, after, steps⟩ := occurs
      exact absent _ steps (by simp)

/-- A cycle that is entered, and two heads that are not reached from it. -/
def islands : List Production :=
  [⟨.given "b", [.nonterminal (.given "s")]⟩, ⟨.given "s", [.nonterminal (.given "a"), .terminal "x"]⟩,
    ⟨.given "c", [.nonterminal (.given "b")]⟩, ⟨.given "a", [.nonterminal (.given "s")]⟩, ⟨.given "a", []⟩]

theorem complete_islands : Complete islands := by decide

theorem unreachableFrom_islands : ∃ grammar, ofProductions islands = .ok grammar ∧
    grammar.unreachableFrom (.given "s") = [.given "b", .given "c"] ∧
    ∀ form, RewritesTo islands [.nonterminal (.given "s")] form → .nonterminal (.given "c") ∉ form := by
  have built := ofProductions_of_complete complete_islands
  obtain ⟨-, -, leaves, -, -, exact⟩ := unreachableFrom_exact built (.given "s")
  have first : mentions (.ofComplete islands complete_islands) (.given "s") = [.given "a"] := by decide
  have second : mentions (.ofComplete islands complete_islands) (.given "a") = [.given "s"] := by decide
  have ends : Worklist.Ends (mentions (.ofComplete islands complete_islands)) [.given "s"]
      [.given "a", .given "s"] := by
    refine .head (.visit_first List.not_mem_nil) ?_
    rw [first]
    refine .head (.visit_first (by decide)) ?_
    rw [second]
    exact .single (.drop_first (by decide))
  have left : unreachableFrom (.ofComplete islands complete_islands) (.given "s") = [.given "b", .given "c"] := by
    rw [leaves _ ends]
    decide
  exact ⟨_, built, left, ((exact _).mp (left ▸ by decide)).2⟩

/-- What is not reported as unreachable decides whether two grammars agree. -/
theorem agreeFrom_iff {grammar other : Grammar} :
    AgreeFrom start grammar.productions.toList other.productions.toList ↔
      ∀ production,
        production ∈ grammar.productions.toList ∧ production.head ∉ grammar.unreachableFrom start ↔
          production ∈ other.productions.toList ∧ production.head ∉ other.unreachableFrom start := by
  have kept (grammar : Grammar) (production : Production) :
      production ∈ grammar.productions.toList ∧ production.head ∉ grammar.unreachableFrom start ↔
        production ∈ grammar.productions.toList ∧ Occurs grammar.productions.toList start production.head :=
    and_congr_right not_mem_unreachableFrom_iff
  simp only [kept, AgreeFrom]

/-- The productions that are left without those of unreachable heads. -/
def prune (grammar : Grammar) (start : Name) : List Production :=
  grammar.productions.toList.filter (·.head ∉ grammar.unreachableFrom start)

theorem mem_prune {production : Production} : production ∈ grammar.prune start ↔
    production ∈ grammar.productions.toList ∧ Occurs grammar.productions.toList start production.head := by
  rw [prune, List.mem_filter, decide_eq_true_eq]
  exact and_congr_right not_mem_unreachableFrom_iff

theorem occurs_prune_iff :
    Occurs (grammar.prune start) start name ↔ Occurs grammar.productions.toList start name := by
  constructor
  · intro occurs
    induction occurs using Occurs.induction with
    | itself => exact .itself _ start
    | reference _ member mentioned ih => exact ih.reference (mem_prune.mp member).1 mentioned
  · intro occurs
    induction occurs using Occurs.induction with
    | itself => exact .itself _ start
    | reference occurs member mentioned ih => exact ih.reference (mem_prune.mpr ⟨member, occurs⟩) mentioned

theorem agreeFrom_prune : AgreeFrom start grammar.productions.toList (grammar.prune start) := by
  intro production
  rw [occurs_prune_iff, mem_prune, and_assoc, and_self]

/-- What a kept production mentions occurs, and so the productions of what it mentions are kept too. -/
theorem complete_prune (grammar : Grammar) (start : Name) : Complete (grammar.prune start) := by
  intro production member name mentioned
  obtain ⟨member, occurs⟩ := mem_prune.mp member
  obtain ⟨child, childMember, rfl⟩ := mem_headsOf.mp (grammar.complete production member name mentioned)
  exact mem_headsOf.mpr ⟨child, mem_prune.mpr ⟨childMember, occurs.reference member mentioned⟩, rfl⟩

theorem ofProductions_prune (grammar : Grammar) (start : Name) :
    ofProductions (grammar.prune start) = .ok (.ofComplete (grammar.prune start) (grammar.complete_prune start)) :=
  ofProductions_of_complete _

end Grammar

end Viable
