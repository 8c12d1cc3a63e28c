import Mathlib.Data.List.Induction
import Viable.Proofs.Chart.Closure
import Viable.Proofs.Chart.Validity
import Viable.Proofs.Session.Advance

/-! What the answers of a session say about the grammar: which tokens continue the consumed ones, and whether
the consumed ones are a sentence. -/

namespace Viable.Session

variable {grammar : Grammar} {start : Name} {tokens : List String} {session : Session grammar}

/-- The chart of a session: a column before each token and one behind the last, and in each of them what is
deduced at its place. -/
structure ExactChart (grammar : Grammar) (start : Name) (tokens : List String) (session : Session grammar) :
    Prop where
  start_eq : session.start = start
  size_eq : session.earlier.size = tokens.length
  exact : Column.AllExact grammar start tokens session.columns

namespace ExactChart

theorem current (chart : ExactChart grammar start tokens session) :
    Column.Exact grammar start tokens tokens.length session.current := by
  apply chart.exact
  rw [← chart.size_eq]
  exact session.columns_consumed

theorem fresh (opened : ofStart grammar start = .ok session) : ExactChart grammar start [] session := by
  unfold ofStart at opened
  split at opened
  case isFalse => cases opened
  case isTrue =>
    cases opened
    have nothing := Column.AllExact.empty grammar start []
    exact ⟨rfl, rfl, nothing.push (Column.exact_close nothing (Column.seeds_start grammar start []))⟩

/-- What a token moves is what the next column can be closed from. -/
theorem scanned (chart : ExactChart grammar start tokens session) (token : String) :
    Column.AllExact grammar start (tokens ++ [token]) session.columns ∧
      Column.Seeds grammar start (tokens ++ [token]) session.columns.size (session.scanned token) := by
  have width : session.columns.size = tokens.length + 1 := by
    rw [session.size_columns, consumed, chart.size_eq]
  have exact := chart.exact.append width.le [token]
  have current : Column.Exact grammar start (tokens ++ [token]) tokens.length session.current := by
    apply exact
    rw [← chart.size_eq]
    exact session.columns_consumed
  have seeds := Column.seeds_scanned current (by simp : (tokens ++ [token])[tokens.length]? = some token)
  rw [← width] at seeds
  exact ⟨exact, seeds⟩

/-- A legal token adds one column, which is closed over what has been scanned. -/
theorem following (chart : ExactChart grammar start tokens session) (token : String) :
    ExactChart grammar start (tokens ++ [token]) (session.following token) := by
  obtain ⟨exact, seeds⟩ := chart.scanned token
  exact ⟨chart.start_eq, by simp [Session.following, columns, chart.size_eq], exact.push (Column.exact_close exact seeds)⟩

end ExactChart

theorem Reads.exactChart (reads : Reads grammar start tokens session) : ExactChart grammar start tokens session := by
  induction reads with
  | fresh opened => exact .fresh opened
  | @next _ _ _ token _ advanced ih =>
    obtain ⟨_, rfl⟩ := advance_eq_ok_iff.mp advanced
    exact ih.following token

/-- Some sentential form of the start begins with the tokens and then one more. -/
def Continues (productions : List Production) (start : Name) (tokens : List String) (token : String) : Prop :=
  ∃ rest, RewritesTo productions [.nonterminal start] (spell tokens ++ .terminal token :: rest)

/-- A sentence continues each of its beginnings. -/
theorem Continues.of_derives {productions : List Production} {token : String} {rest : List String}
    (derives : Derives productions [.nonterminal start] (tokens ++ token :: rest)) :
    Continues productions start tokens token :=
  ⟨spell rest, by simpa using derives.rewritesTo⟩

theorem Reads.mem_legal_iff (reads : Reads grammar start tokens session) {token : String} :
    token ∈ session.legal.toList ↔ Continues grammar.productions.toList start tokens token := by
  have current := reads.exactChart.current
  have whole := List.take_length (l := tokens)
  rw [legal, TokenSet.mem_expected]
  constructor
  · intro expected
    obtain ⟨item, member, next⟩ := expected
    obtain ⟨production, valid⟩ := ((current item).mp member).valid
    exact whole ▸ valid.rewritesTo next
  · intro continues
    obtain ⟨rest, steps⟩ := continues
    rw [← whole] at steps
    rcases Charted.exists_next_of_rewritesTo (by simp) steps with atStart | expected
    · cases atStart.2
    · obtain ⟨item, charted, next⟩ := expected
      exact ⟨item, (current item).mpr (by simpa using charted), next⟩

/-- The consumed tokens are accepted when the start derives them. -/
theorem Reads.isAccepting_iff (reads : Reads grammar start tokens session) :
    session.isAccepting ↔ Derives grammar.productions.toList [.nonterminal start] tokens := by
  have current := reads.exactChart.current
  simp only [isAccepting, List.any_eq_true, Bool.and_eq_true, decide_eq_true_eq, Option.isNone_iff_eq_none,
    reads.exactChart.start_eq]
  constructor
  · intro finished
    obtain ⟨item, member, ⟨origin, finished⟩, head⟩ := finished
    obtain ⟨production, valid⟩ := ((current item).mp member).valid
    have derives := valid.derives_head finished
    rw [Item.head?_eq valid.present, Option.some_inj] at head
    rw [origin, head] at derives
    simpa using derives
  · intro derives
    obtain ⟨production, member, rfl, body⟩ := derives.exists_production
    obtain ⟨position, present⟩ := List.getElem?_of_mem member
    rw [Array.getElem?_toList] at present
    have valid : Item.Valid grammar production.head tokens tokens.length ⟨position, production.body.length, 0⟩
        production := by
      refine ⟨present, le_refl _, Nat.zero_le _, ⟨[], .refl⟩, ?_⟩
      simpa using body
    have finished : Item.next? grammar ⟨position, production.body.length, 0⟩ = none := by
      rw [Item.next?_eq present, List.getElem?_length]
    exact ⟨_, (current _).mpr (.of_valid valid le_rfl), ⟨rfl, finished⟩, Item.head?_eq present⟩

/-- A fresh session consumes every list of tokens that can come first in a sentential form. -/
theorem exists_reads (opened : ∃ initial, ofStart grammar start = .ok initial) {rest : Body}
    (steps : RewritesTo grammar.productions.toList [.nonterminal start] (spell tokens ++ rest)) :
    ∃ final, Reads grammar start tokens final := by
  induction tokens using List.reverseRecOn generalizing rest with
  | nil =>
    obtain ⟨initial, opened⟩ := opened
    exact ⟨initial, .fresh opened⟩
  | append_singleton tokens token ih =>
    simp only [spell_append, spell_cons, spell_nil, List.append_assoc, List.singleton_append] at steps
    obtain ⟨before, reads⟩ := ih steps
    exact ⟨_, reads.following (reads.mem_legal_iff.mpr ⟨rest, steps⟩)⟩

theorem exists_initial (heads : ∃ production ∈ grammar.productions.toList, production.head = start) :
    ∃ initial, ofStart grammar start = .ok initial := by
  rw [ofStart, if_pos (Grammar.contains_iff.mpr heads)]
  exact ⟨_, rfl⟩

theorem contains_of_ofStart (opened : ofStart grammar start = .ok session) : grammar.contains start := by
  by_contra missing
  simp [ofStart, missing] at opened

/-- A session that has consumed a beginning of a sentence consumes the rest of it. -/
theorem Reads.advanceAll_of_derives {more : List String}
    (reads : Reads grammar start tokens session)
    (derives : Derives grammar.productions.toList [.nonterminal start] (tokens ++ more)) :
    ∃ final, session.advanceAll more = .ok final ∧ Reads grammar start (tokens ++ more) final ∧
      final.isAccepting := by
  induction more generalizing tokens session with
  | nil =>
    rw [List.append_nil] at derives ⊢
    exact ⟨session, rfl, reads, reads.isAccepting_iff.mpr derives⟩
  | cons token more ih =>
    have legal := reads.mem_legal_iff.mpr (.of_derives derives)
    rw [List.append_cons] at derives ⊢
    obtain ⟨final, advanced, readsFinal, accepting⟩ := ih (reads.following legal) derives
    exact ⟨final, advanceAll_cons_eq_ok_iff.mpr ⟨legal, advanced⟩, readsFinal, accepting⟩

/-- There is a session of the start, and it consumes all of the tokens and accepts them. -/
def Accepts (grammar : Grammar) (start : Name) (tokens : List String) : Prop :=
  ∃ initial final, ofStart grammar start = .ok initial ∧ initial.advanceAll tokens = .ok final ∧ final.isAccepting

theorem accepts_iff_derives :
    Accepts grammar start tokens ↔ Derives grammar.productions.toList [.nonterminal start] tokens := by
  constructor
  · rintro ⟨initial, final, opened, advanced, accepting⟩
    have reads : Reads grammar start tokens final := by
      simpa using (Reads.fresh opened).advanceAll advanced
    exact reads.isAccepting_iff.mp accepting
  · intro derives
    obtain ⟨production, member, heads, _⟩ := derives.exists_production
    obtain ⟨initial, opened⟩ := exists_initial ⟨production, member, heads⟩
    obtain ⟨final, advanced, _, accepting⟩ := (Reads.fresh opened).advanceAll_of_derives derives
    exact ⟨initial, final, opened, advanced, accepting⟩

/-- Recognition is exact: a fresh session consumes all of the tokens and accepts them if and only if the start
can be rewritten to them. -/
theorem accepts_iff_rewritesTo {productions : List Production} {grammar : Grammar}
    (built : Grammar.ofProductions productions = .ok grammar) {start : Name}
    (heads : ∃ production ∈ productions, production.head = start) :
    ∃ initial, ofStart grammar start = .ok initial ∧ ∀ tokens,
      (∃ final, initial.advanceAll tokens = .ok final ∧ final.isAccepting) ↔
        RewritesTo productions [.nonterminal start] (spell tokens) := by
  have same := Grammar.productions_of_ofProductions built
  subst same
  obtain ⟨initial, opened⟩ := exists_initial heads
  refine ⟨initial, opened, fun tokens => ?_⟩
  constructor
  · intro accepts
    obtain ⟨final, consumed, accepting⟩ := accepts
    have reads : Reads grammar start tokens final := by
      simpa using (Reads.fresh opened).advanceAll consumed
    exact (reads.isAccepting_iff.mp accepting).rewritesTo
  · intro steps
    obtain ⟨final, reads⟩ := exists_reads ⟨initial, opened⟩ (by simpa using steps : RewritesTo _ _ (_ ++ []))
    obtain ⟨other, openedOther, consumed⟩ := reads.exists_initial
    cases opened.symm.trans openedOther
    exact ⟨final, consumed, reads.isAccepting_iff.mpr (derives_iff_rewritesTo.mpr steps)⟩

/-- Sums of ones: ambiguous and cyclic, with an empty body twice over and a head that derives nothing. -/
def sums : List Production :=
  [⟨.given "sum", [.nonterminal (.given "sum"), .nonterminal (.given "sum")]⟩,
    ⟨.given "sum", [.nonterminal (.given "sum")]⟩, ⟨.given "sum", [.terminal "1"]⟩,
    ⟨.given "sum", []⟩, ⟨.given "sum", []⟩, ⟨.given "loop", [.nonterminal (.given "loop")]⟩]

theorem complete_sums : Complete sums := by decide

theorem accepts_sum : ∃ grammar initial final, Grammar.ofProductions sums = .ok grammar ∧
    ofStart grammar (.given "sum") = .ok initial ∧ initial.advanceAll ["1", "1"] = .ok final ∧
    final.isAccepting := by
  have built : Grammar.ofProductions sums = .ok (.ofComplete sums complete_sums) := dif_pos complete_sums
  have heads : ∃ production ∈ sums, production.head = .given "sum" := ⟨_, List.mem_cons_self, rfl⟩
  have unit : ⟨.given "sum", [.terminal "1"]⟩ ∈ sums := by decide
  have double : ⟨.given "sum", [.nonterminal (.given "sum"), .nonterminal (.given "sum")]⟩ ∈ sums := by decide
  have one : Derives sums [.nonterminal (.given "sum")] ["1"] := .node unit (.spell ["1"]) .nil
  have two : Derives sums [.nonterminal (.given "sum")] ["1", "1"] := .node double (one.append one) .nil
  obtain ⟨initial, opened, accepts⟩ := accepts_iff_rewritesTo built heads
  obtain ⟨final, advanced, accepting⟩ := (accepts _).mpr two.rewritesTo
  exact ⟨_, initial, final, built, opened, advanced, accepting⟩

/-- Legality is exact: the legal tokens are those that continue the consumed ones. They and no others can be
consumed, which leaves a session as exact for the longer list, and any other is refused with its place and
the legal tokens. -/
theorem legal_iff_continues {productions : List Production} {grammar : Grammar}
    (built : Grammar.ofProductions productions = .ok grammar) {start : Name} {tokens : List String}
    {session : Session grammar} (reads : Reads grammar start tokens session) :
    (∀ token, token ∈ session.legal.toList ↔ Continues productions start tokens token) ∧
    (∀ token, (∃ after, session.advance token = .ok after) ↔ Continues productions start tokens token) ∧
    (∀ token after, session.advance token = .ok after → Reads grammar start (tokens ++ [token]) after ∧
      ∀ further, further ∈ after.legal.toList ↔ Continues productions start (tokens ++ [token]) further) ∧
    ∀ token rejection, session.advance token = .error rejection →
      rejection = ⟨token, tokens.length, session.legal⟩ := by
  have same := Grammar.productions_of_ofProductions built
  subst same
  refine ⟨fun token => reads.mem_legal_iff, fun token => ?_, fun token after advanced => ?_,
    fun token rejection refused => ?_⟩
  · rw [← reads.mem_legal_iff, advance_eq]
    split <;> simp_all
  · have readsAfter := reads.next advanced
    exact ⟨readsAfter, fun further => readsAfter.mem_legal_iff⟩
  · rw [advance_eq] at refused
    split at refused
    · cases refused
    · cases refused
      rw [reads.consumed_eq]

/-- An end behind two nullable marks. -/
def marks : List Production :=
  [⟨.given "line", [.nonterminal (.given "mark"), .nonterminal (.given "mark"), .terminal "end"]⟩,
    ⟨.given "mark", []⟩, ⟨.given "mark", [.terminal "*"]⟩]

theorem complete_marks : Complete marks := by decide

theorem legal_past_marks : ∃ grammar initial after, Grammar.ofProductions marks = .ok grammar ∧
    Reads grammar (.given "line") [] initial ∧ "end" ∈ initial.legal.toList ∧
    initial.advance "*" = .ok after ∧ "end" ∈ after.legal.toList := by
  have built : Grammar.ofProductions marks = .ok (.ofComplete marks complete_marks) := dif_pos complete_marks
  have line : ⟨.given "line", [.nonterminal (.given "mark"), .nonterminal (.given "mark"), .terminal "end"]⟩ ∈
    marks := by decide
  have empty : ⟨.given "mark", []⟩ ∈ marks := by decide
  have star : ⟨.given "mark", [.terminal "*"]⟩ ∈ marks := by decide
  have unmarked : Derives marks [.nonterminal (.given "line")] ["end"] :=
    .node line (.node empty .nil (.node empty .nil (.spell ["end"]))) .nil
  have marked : Derives marks [.nonterminal (.given "line")] ["*", "end"] :=
    .node line (.node star (.spell ["*"]) (.node empty .nil (.spell ["end"]))) .nil
  have heads : ∃ production ∈ (Grammar.ofComplete marks complete_marks).productions.toList,
      production.head = .given "line" := ⟨_, line, rfl⟩
  obtain ⟨initial, opened⟩ := exists_initial heads
  obtain ⟨legal, advances, behind, -⟩ := legal_iff_continues built (.fresh opened)
  obtain ⟨after, advanced⟩ := (advances "*").mpr (.of_derives marked)
  exact ⟨_, initial, after, built, .fresh opened, (legal "end").mpr (.of_derives unmarked), advanced,
    ((behind "*" after advanced).2 "end").mpr (.of_derives marked)⟩

end Viable.Session
