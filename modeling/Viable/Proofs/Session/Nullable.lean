import Viable.Proofs.Grammar.Reachable
import Viable.Proofs.Session.Recognition
import Viable.Proofs.Settling

/-! The names that derive the empty token list. They are found in place, by passes over the productions until nothing new
is found, and they are the names from which a fresh session accepts at once. -/

namespace Viable

/-- The body has nothing but names that are known. -/
def Covered (known : List Name) (body : Body) : Prop := ∀ symbol ∈ body, ∃ name ∈ known, symbol = .nonterminal name

instance (known : List Name) (body : Body) : Decidable (Covered known body) :=
  inferInstanceAs (Decidable (∀ symbol ∈ body, ∃ name ∈ known, symbol = .nonterminal name))

/-- Takes in the head of a production whose body is covered. -/
def enlist (production : Production) (known : List Name) : List Name :=
  if production.head ∈ known then known
  else if Covered known production.body then production.head :: known
  else known

variable {productions others : List Production} {production : Production} {known found : List Name} {name : Name}
  {body : Body}

theorem enlist_cases (production : Production) (known : List Name) :
    enlist production known = known ∧ (Covered known production.body → production.head ∈ known) ∨
      enlist production known = production.head :: known ∧ production.head ∉ known ∧ Covered known production.body := by
  unfold enlist
  split
  case isTrue present => exact .inl ⟨rfl, fun _ => present⟩
  case isFalse absent =>
    split
    case isTrue covered => exact .inr ⟨rfl, absent, covered⟩
    case isFalse uncovered => exact .inl ⟨rfl, fun covered => absurd covered uncovered⟩

/-- The productions whose heads have not been taken in get fewer. -/
theorem lowers_enlist (productions : List Production) :
    Lowers enlist productions fun known => (productions.filter (·.head ∉ known)).length := by
  intro production member known
  refine (enlist_cases production known).imp And.left fun enlisted => ?_
  obtain ⟨same, absent, -⟩ := enlisted
  have fewer : productions.filter (·.head ∉ enlist production known) =
      (productions.filter (·.head ∉ known)).filter (·.head ≠ production.head) := by
    rw [List.filter_filter, same]
    refine List.filter_congr fun other _ => ?_
    simp
  dsimp only
  rw [fewer, List.length_filter_lt_length_iff_exists]
  exact ⟨production, List.mem_filter.mpr ⟨member, by simpa using absent⟩, by simp⟩

theorem derives_nil_of_covered (sound : ∀ name ∈ known, Derives productions [.nonterminal name] [])
    (covered : Covered known body) : Derives productions body [] := by
  induction body with
  | nil => exact .nil
  | cons symbol body ih =>
    obtain ⟨⟨name, listed, rfl⟩, rest⟩ := List.forall_mem_cons.mp covered
    exact (sound name listed).append (ih rest)

/-- Where nothing is left to be taken in, a body that derives nothing is covered. -/
theorem covered_of_derives (stable : ∀ production ∈ productions, enlist production known = known) {tokens : List String}
    (derives : Derives productions body tokens) (nothing : tokens = []) : Covered known body := by
  induction derives using Derives.tree_induction with
  | nil => exact fun _ absent => absurd absent List.not_mem_nil
  | terminal => cases nothing
  | @node production _ _ _ member _ _ ihChildren ihRest =>
    obtain ⟨noFirst, noSecond⟩ := List.append_eq_nil_iff.mp nothing
    have head : production.head ∈ known := by
      rcases enlist_cases production known with unchanged | enlisted
      · exact unchanged.2 (ihChildren noFirst)
      · have longer := enlisted.1.symm.trans (stable production member)
        simp at longer
    exact List.forall_mem_cons.mpr ⟨⟨_, head, rfl⟩, ihRest noSecond⟩

/-- Only names that derive the empty token list are taken in. -/
theorem derives_nil_enlist (production : Production) (member : production ∈ productions) (known : List Name)
    (sound : ∀ name ∈ known, Derives productions [.nonterminal name] []) :
    ∀ name ∈ enlist production known, Derives productions [.nonterminal name] [] := by
  rcases enlist_cases production known with unchanged | enlisted
  · exact unchanged.1.symm ▸ sound
  · obtain ⟨same, -, covered⟩ := enlisted
    rw [same]
    exact List.forall_mem_cons.mpr ⟨.of_body member (derives_nil_of_covered sound covered), sound⟩

/-- What is found in place is what derives the empty token list. -/
theorem mem_of_settles_enlist (settles : Settles enlist productions [] found) :
    name ∈ found ↔ Derives productions [.nonterminal name] [] := by
  have sound := settles.keeps derives_nil_enlist fun _ absent => absurd absent List.not_mem_nil
  refine ⟨sound name, fun derives => ?_⟩
  obtain ⟨other, listed, same⟩ := covered_of_derives (settles.stable (lowers_enlist productions)) derives rfl _
    (List.mem_singleton_self _)
  exact Symbol.nonterminal.inj same ▸ listed

theorem mem_nullablesOf_iff_rewritesTo : name ∈ nullablesOf productions ↔ RewritesTo productions [.nonterminal name] [] :=
  mem_nullablesOf.trans derives_iff_rewritesTo

theorem nullablesOf_mono (inside : productions ⊆ others) : nullablesOf productions ⊆ nullablesOf others := by
  intro name listed
  rw [mem_nullablesOf_iff_rewritesTo] at listed ⊢
  exact listed.of_occurs fun production member _ => inside member

namespace Session

variable {grammar : Grammar} {initial : Session grammar}

/-- Before any token the tokens consumed are none. -/
theorem isAccepting_fresh (opened : ofStart grammar name = .ok initial) :
    initial.isAccepting = grammar.isNullable name := by
  apply Bool.eq_iff_iff.mpr
  rw [(Reads.fresh opened).isAccepting_iff, Grammar.isNullable_iff]

/-- Nullability is exact. The passes that take in the heads of covered bodies end, and the names that they end with are
the nullable ones: those that can be rewritten to the empty token list. Neither the order of the productions nor their
repetitions matter. In a grammar, a name is nullable if it is one from which a fresh session accepts before any token. -/
theorem nullable_exact (productions : List Production) :
    (∃ found, Settles enlist productions [] found) ∧
    (∀ found, Settles enlist productions [] found → ∀ name, name ∈ found ↔ name ∈ nullablesOf productions) ∧
    (∀ name, name ∈ nullablesOf productions ↔ RewritesTo productions [.nonterminal name] []) ∧
    (∀ others : List Production, (∀ production, production ∈ others ↔ production ∈ productions) →
      ∀ name, name ∈ nullablesOf others ↔ name ∈ nullablesOf productions) ∧
    ∀ grammar, Grammar.ofProductions productions = .ok grammar →
      (∀ name, grammar.isNullable name ↔ name ∈ nullablesOf productions) ∧
      ∀ name ∈ grammar.nonterminals, ∃ initial, ofStart grammar name = .ok initial ∧
        (grammar.isNullable name ↔ initial.isAccepting) := by
  refine ⟨exists_settles (lowers_enlist productions) [], fun found settles name => ?_,
    fun name => mem_nullablesOf_iff_rewritesTo, fun others same name => ?_, fun grammar built => ⟨fun name => ?_, ?_⟩⟩
  · rw [mem_of_settles_enlist settles, mem_nullablesOf]
  · constructor
    · exact fun listed => nullablesOf_mono (fun production => (same production).mp) listed
    · exact fun listed => nullablesOf_mono (fun production => (same production).mpr) listed
  · rw [Grammar.isNullable_iff, mem_nullablesOf, Grammar.productions_of_ofProductions built]
  · intro name listed
    obtain ⟨initial, opened⟩ := exists_initial (Grammar.contains_iff.mp (Grammar.mem_nonterminals.mp listed))
    exact ⟨initial, opened, by rw [isAccepting_fresh opened]⟩

/-- An empty body three names deep, below the productions that need it, and one name that has a terminal beside it. -/
def layers : List Production :=
  [⟨.given "solid", [.nonterminal (.given "outer"), .terminal "y"]⟩,
    ⟨.given "outer", [.nonterminal (.given "inner"), .nonterminal (.given "inner")]⟩,
    ⟨.given "inner", [.nonterminal (.given "inner")]⟩, ⟨.given "inner", [.nonterminal (.given "unit")]⟩,
    ⟨.given "unit", []⟩]

theorem complete_layers : Complete layers := by decide

theorem nullable_layers : ∃ grammar initial, Grammar.ofProductions layers = .ok grammar ∧
    ofStart grammar (.given "outer") = .ok initial ∧ initial.isAccepting ∧ .given "solid" ∉ nullablesOf layers := by
  have built := Grammar.ofProductions_of_complete complete_layers
  obtain ⟨-, places, -, -, sessions⟩ := nullable_exact layers
  obtain ⟨nullable, fresh⟩ := sessions _ built
  obtain ⟨initial, opened, accepting⟩ := fresh (.given "outer") (by decide)
  -- three passes find one name each, and the fourth finds nothing
  have settles : Settles enlist layers [] [.given "outer", .given "inner", .given "unit"] :=
    .again (by decide) (.again (by decide) (.again (by decide) (.rest (by decide))))
  refine ⟨_, initial, built, opened, accepting.mp ((nullable _).mpr ((places _ settles _).mp (by decide))), ?_⟩
  rw [← places _ settles]
  decide

end Session

end Viable
