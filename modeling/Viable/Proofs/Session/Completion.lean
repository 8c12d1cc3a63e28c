import Viable.Proofs.Grammar.Fruitful
import Viable.Proofs.Grammar.Yield
import Viable.Proofs.Session.Recognition

/-! How a session can end. Whether the consumed tokens can be completed to a sentence is decided by the names
that are left in the sentential forms beginning with them, and a session does not look at that. -/

namespace Viable.Session

variable {grammar : Grammar} {start : Name} {tokens : List String} {session : Session grammar}

/-- Whatever has been consumed comes first in some sentential form. -/
theorem Reads.exists_form (reads : Reads grammar start tokens session) :
    ∃ rest, RewritesTo grammar.productions.toList [.nonterminal start] (spell tokens ++ rest) := by
  cases reads with
  | fresh => exact ⟨[.nonterminal start], .refl⟩
  | @next tokens _ _ token reads advanced =>
    obtain ⟨legal, _⟩ := advance_eq_ok_iff.mp advanced
    obtain ⟨rest, steps⟩ := reads.mem_legal_iff.mp legal
    exact ⟨rest, by simpa using steps⟩

theorem exists_reads_of_begins (begins : Begins grammar.productions.toList start tokens) :
    ∃ final, Reads grammar start tokens final := by
  obtain ⟨rest, steps⟩ := begins
  obtain ⟨production, member, heads, _⟩ := (derives_iff_rewritesTo.mpr steps).exists_production
  rw [spell_append] at steps
  exact exists_reads (exists_initial ⟨production, member, heads⟩) steps

/-- A token that makes a longer beginning of a sentence is legal. -/
theorem Reads.mem_legal_of_begins (reads : Reads grammar start tokens session) {token : String}
    (begins : Begins grammar.productions.toList start (tokens ++ [token])) : token ∈ session.legal.toList := by
  obtain ⟨rest, steps⟩ := begins
  apply reads.mem_legal_iff.mpr
  exact ⟨spell rest, by simpa using steps⟩

/-- Some further tokens are consumed and lead to an accepting session. -/
def Completes (session : Session grammar) : Prop :=
  ∃ more final, session.advanceAll more = .ok final ∧ final.isAccepting

theorem Reads.completes_iff_begins (reads : Reads grammar start tokens session) :
    session.Completes ↔ Begins grammar.productions.toList start tokens := by
  constructor
  · intro completes
    obtain ⟨more, final, advanced, accepting⟩ := completes
    have derives := (reads.advanceAll advanced).isAccepting_iff.mp accepting
    exact ⟨more, derives.rewritesTo⟩
  · intro begins
    obtain ⟨rest, steps⟩ := begins
    obtain ⟨final, advanced, _, accepting⟩ := reads.advanceAll_of_derives (derives_iff_rewritesTo.mpr steps)
    exact ⟨rest, final, advanced, accepting⟩

/-- The consumed tokens can be completed if and only if some sentential form begins with them and has only
fruitful names behind them. That is so for everything a session consumes when all names that occur are
fruitful. -/
theorem completes_iff_exists_fruitful {productions : List Production} {grammar : Grammar}
    (built : Grammar.ofProductions productions = .ok grammar) {start : Name} {tokens : List String}
    {session : Session grammar} (reads : Reads grammar start tokens session) :
    (session.Completes ↔
      ∃ rest, RewritesTo productions [.nonterminal start] (spell tokens ++ rest) ∧
        ∀ name, .nonterminal name ∈ rest → Fruitful productions name) ∧
    (Productive productions start → session.Completes) := by
  have same := Grammar.productions_of_ofProductions built
  subst same
  constructor
  · exact reads.completes_iff_begins.trans begins_iff_exists_fruitful
  · intro productive
    obtain ⟨rest, steps⟩ := reads.exists_form
    exact reads.completes_iff_begins.mpr (productive.begins steps)

/-- Two ways to an item. One of them never ends. -/
def forks : List Production :=
  [⟨.given "item", [.terminal "a"]⟩, ⟨.given "item", [.terminal "x", .nonterminal (.given "void")]⟩,
    ⟨.given "void", [.terminal "y", .nonterminal (.given "void")]⟩]

theorem complete_forks : Complete forks := by decide

theorem exists_fork :
    ∃ initial, ofStart (.ofComplete forks complete_forks) (.given "item") = .ok initial :=
  exists_initial ⟨⟨.given "item", [.terminal "a"]⟩, show _ ∈ forks by decide, rfl⟩

/-- The only sentence goes the short way. -/
theorem eq_of_derives_fork {tokens : List String} (derives : Derives forks [.nonterminal (.given "item")] tokens) :
    tokens = ["a"] := by
  have barren : IsEmpty (Derivation forks [.nonterminal (.given "void")]) :=
    not_nonempty_iff.mp ((mem_heightsOf_iff _).not.mp (by decide))
  obtain ⟨production, member, heads, body⟩ := derives.exists_production
  simp only [forks, List.mem_cons, List.not_mem_nil, or_false] at member
  rcases member with rfl | rfl | rfl
  · have read : Derives forks (spell ["a"]) tokens := body
    exact read.eq_of_spell
  · have entered : Derives forks ([.terminal "x"] ++ [.nonterminal (.given "void")]) tokens := body
    obtain ⟨_, _, _, _, tree, _⟩ := entered.split
    exact barren.elim tree
  · simp at heads

theorem completes_fork : ∃ grammar session, Grammar.ofProductions forks = .ok grammar ∧
    Reads grammar (.given "item") ["a"] session ∧ session.Completes := by
  have built := Grammar.ofProductions_of_complete complete_forks
  have short : ⟨.given "item", [.terminal "a"]⟩ ∈ forks := by decide
  have steps : RewritesTo forks [.nonterminal (.given "item")] (spell ["a"] ++ []) :=
    (Derives.of_body short (.spell ["a"])).rewritesTo
  obtain ⟨session, reads⟩ := exists_reads exists_fork steps
  obtain ⟨completes, -⟩ := completes_iff_exists_fruitful built reads
  exact ⟨_, session, built, reads, completes.mpr ⟨[], steps, by simp⟩⟩

/-- The way without an end can be entered, although the start has a sentence. -/
theorem not_completes_fork : ∃ grammar initial after, Grammar.ofProductions forks = .ok grammar ∧
    ofStart grammar (.given "item") = .ok initial ∧ initial.Completes ∧ initial.advance "x" = .ok after ∧
    ¬after.Completes := by
  have built := Grammar.ofProductions_of_complete complete_forks
  have short : ⟨.given "item", [.terminal "a"]⟩ ∈ forks := by decide
  have long : ⟨.given "item", [.terminal "x", .nonterminal (.given "void")]⟩ ∈ forks := by decide
  have sentence : Derives forks [.nonterminal (.given "item")] ["a"] := .of_body short (.spell ["a"])
  obtain ⟨initial, opened⟩ := exists_fork
  have fresh := Reads.fresh opened
  have legal := fresh.mem_legal_iff.mpr ⟨[.nonterminal (.given "void")], .single (.replace [] [] _ long)⟩
  refine ⟨_, initial, _, built, opened, ?_, advance_of_legal legal, ?_⟩
  · exact fresh.completes_iff_begins.mpr ⟨["a"], sentence.rewritesTo⟩
  · intro completes
    obtain ⟨rest, steps⟩ := (fresh.following legal).completes_iff_begins.mp completes
    simpa using eq_of_derives_fork (derives_iff_rewritesTo.mpr steps)

end Viable.Session
