import Viable.Proofs.Lua.Sentences
import Viable.Proofs.Recovery.Push
import Viable.Proofs.Session.Completion

/-! Where every name has a finite sentence no session runs into a dead end: what it has consumed begins a
sentence, and the legal tokens are those that keep it so. The Lua grammar is such a grammar. -/

namespace Viable

namespace Session

variable {grammar : Grammar} {start : Name} {tokens : List String} {session : Session grammar}

/-- The consumed tokens begin a sentence, the legal ones are all that can come next in one, and some tokens lead
from here to acceptance. -/
structure Hopeful (start : Name) (tokens : List String) (session : Session grammar) : Prop where
  begins : Begins grammar.productions.toList start tokens
  mem_legal_iff : ∀ token, token ∈ session.legal.toList ↔ Begins grammar.productions.toList start (tokens ++ [token])
  completes : session.Completes

theorem Reads.hopeful (reads : Reads grammar start tokens session)
    (productive : Productive grammar.productions.toList start) : session.Hopeful start tokens := by
  obtain ⟨form, steps⟩ := reads.exists_form
  have begins := productive.begins steps
  refine ⟨begins, fun token => ⟨fun legal => ?_, reads.mem_legal_of_begins⟩, reads.completes_iff_begins.mpr begins⟩
  obtain ⟨rest, longer⟩ := (reads.following legal).exists_form
  exact productive.begins longer

theorem advanceAll_iff_begins {initial : Session grammar} (opened : ofStart grammar start = .ok initial)
    (productive : Productive grammar.productions.toList start) (tokens : List String) :
    (∃ session, initial.advanceAll tokens = .ok session) ↔ Begins grammar.productions.toList start tokens := by
  constructor
  · intro consumed
    obtain ⟨session, advanced⟩ := consumed
    exact ((Reads.fresh opened).advanceAll advanced |>.hopeful productive).begins
  · intro begins
    obtain ⟨session, reads⟩ := exists_reads_of_begins begins
    obtain ⟨other, openedOther, advanced⟩ := reads.exists_initial
    cases opened.symm.trans openedOther
    exact ⟨session, advanced⟩

end Session

namespace Lua

theorem ofProductions_productions : Grammar.ofProductions productions = .ok grammar :=
  Grammar.ofProductions_of_complete grammar.complete

/-- Whatever occurs has a sentence, from each name on. -/
theorem productive_of_contains {start : Name} (contained : grammar.contains start) : Productive productions start := by
  intro name occurs
  obtain ⟨tree⟩ := exists_tree (Grammar.contains_of_occurs contained occurs)
  exact Derives.fruitful ⟨tree, rfl⟩

end Lua

namespace Session

/-- There are no dead ends where all names that occur are fruitful. A fresh session consumes exactly the
beginnings of sentences, and stays hopeful on all of them. From every name of the Lua grammar all names are
fruitful, so that whatever calls have been made, its sessions are hopeful. -/
theorem hopeful_of_productive :
    (∀ productions grammar, Grammar.ofProductions productions = .ok grammar →
      ∀ start, Productive productions start → ∃ initial, ofStart grammar start = .ok initial ∧
        ∀ tokens, ((∃ session, initial.advanceAll tokens = .ok session) ↔ Begins productions start tokens) ∧
          ∀ session, initial.advanceAll tokens = .ok session → session.Hopeful start tokens) ∧
    Grammar.ofProductions Lua.productions = .ok Lua.grammar ∧
    ∀ start, Lua.grammar.contains start → Productive Lua.productions start ∧
      ∀ session, Reachable Lua.grammar start session →
        ∃ tokens, Reads Lua.grammar start tokens session ∧ session.Hopeful start tokens := by
  refine ⟨fun productions grammar built start productive => ?_, Lua.ofProductions_productions,
    fun start contained => ?_⟩
  · have same := Grammar.productions_of_ofProductions built
    subst same
    obtain ⟨initial, opened⟩ := exists_initial productive.exists_head
    refine ⟨initial, opened, fun tokens => ⟨advanceAll_iff_begins opened productive tokens, ?_⟩⟩
    intro session advanced
    exact ((Reads.fresh opened).advanceAll advanced).hopeful productive
  · have productive := Lua.productive_of_contains contained
    refine ⟨productive, fun session reachable => ?_⟩
    obtain ⟨tokens, reads⟩ := reachable.exists_reads
    exact ⟨tokens, reads, reads.hopeful productive⟩

/-- Behind one mark there may be another one or the end. -/
theorem hopeful_mark : ∃ grammar initial after, Grammar.ofProductions marks = .ok grammar ∧
    ofStart grammar (.given "line") = .ok initial ∧ initial.advanceAll ["*"] = .ok after ∧
    "end" ∈ after.legal.toList ∧ after.Completes := by
  have built := Grammar.ofProductions_of_complete complete_marks
  have line : ⟨.given "line", [.nonterminal (.given "mark"), .nonterminal (.given "mark"), .terminal "end"]⟩ ∈
    marks := by decide
  have empty : ⟨.given "mark", []⟩ ∈ marks := by decide
  have star : ⟨.given "mark", [.terminal "*"]⟩ ∈ marks := by decide
  have marked : Derives marks [.nonterminal (.given "line")] ["*", "end"] :=
    .node line (.node star (.spell ["*"]) (.node empty .nil (.spell ["end"]))) .nil
  have productive : Productive marks (.given "line") := by
    intro name occurs
    have known : name ∈ [.given "line", .given "mark"] := occurs.mem_of_closed (by decide) (by decide)
    simp only [List.mem_cons, List.not_mem_nil, or_false] at known
    rcases known with rfl | rfl
    · exact marked.fruitful
    · exact (Derives.of_body empty .nil).fruitful
  obtain ⟨initial, opened, sessions⟩ := hopeful_of_productive.1 marks _ built (.given "line") productive
  obtain ⟨consumed, hopeful⟩ := sessions ["*"]
  obtain ⟨after, advanced⟩ := consumed.mpr ⟨["end"], marked.rewritesTo⟩
  refine ⟨_, initial, after, built, opened, advanced, ?_, (hopeful after advanced).completes⟩
  exact ((hopeful after advanced).mem_legal_iff "end").mpr ⟨[], marked.rewritesTo⟩

end Session

end Viable
