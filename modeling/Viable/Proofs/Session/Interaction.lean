import Mathlib.Data.List.Sort
import Viable.Proofs.Grammar.Reachable
import Viable.Proofs.Recovery.Push

/-! Sessions as they are seen from outside. What a session answers depends on the sentential forms of its start,
and so on nothing but the set of productions that can be reached from there: their order, their repetitions and
the productions of other names leave no trace in any answer. -/

namespace Viable

/-- What a session can be asked or told. The checkpoint of a rewind may come from anywhere. -/
inductive Request where
  | advance (token : String)
  | push (separator : Option String) (token : String)
  | legal
  | isAccepting
  | consumed
  | checkpoint
  | rewind (checkpoint : Session.Checkpoint)

/-- What comes back from a request. Nothing does from a rewind. -/
inductive Reply where
  | advanced (answer : Except Rejection TokenSet)
  | pushed (answer : Except Refusal TokenSet)
  | legal (tokens : TokenSet)
  | isAccepting (accepts : Bool)
  | consumed (count : Nat)
  | checkpoint (checkpoint : Session.Checkpoint)
  | rewound

/-- A set of tokens is known by its members. -/
theorem TokenSet.eq_of_mem_iff {first second : TokenSet} (same : ∀ text, text ∈ first.toList ↔ text ∈ second.toList) :
    first = second := by
  obtain ⟨texts, sorted⟩ := first
  obtain ⟨others, sortedOthers⟩ := second
  congr
  exact sorted.eq_of_mem_iff sortedOthers same

namespace Session

variable {grammar other : Grammar} {start : Name}

/-- The answer to a request, and the session that is left behind it. -/
def respond (session : Session grammar) : Request → Reply × Session grammar
  | .advance token =>
    match session.advance token with
    | .ok after => (.advanced (.ok after.legal), after)
    | .error rejection => (.advanced (.error rejection), session)
  | .push separator token =>
    let outcome := session.push separator token
    (.pushed outcome.answer, outcome.session)
  | .legal => (.legal session.legal, session)
  | .isAccepting => (.isAccepting session.isAccepting, session)
  | .consumed => (.consumed session.consumed, session)
  | .checkpoint => (.checkpoint session.checkpoint, session)
  | .rewind checkpoint => (.rewound, session.rewind checkpoint)

/-- The answers to requests that are made one after the other. -/
def replies : Session grammar → List Request → List Reply
  | _, [] => []
  | session, request :: requests =>
    let (reply, after) := session.respond request
    reply :: replies after requests

/-- Two sessions have consumed the same tokens from a start, each on a grammar of its own. -/
def Alongside (start : Name) (session : Session grammar) (mirror : Session other) : Prop :=
  ∃ tokens, Reads grammar start tokens session ∧ Reads other start tokens mirror

namespace Alongside

variable {session : Session grammar} {mirror : Session other}

theorem fresh (opened : ofStart grammar start = .ok session) (mirrored : ofStart other start = .ok mirror) :
    Alongside start session mirror :=
  ⟨[], .fresh opened, .fresh mirrored⟩

theorem following (along : Alongside start session mirror) {token : String} (legal : token ∈ session.legal.toList)
    (legalMirror : token ∈ mirror.legal.toList) :
    Alongside start (session.following token) (mirror.following token) := by
  obtain ⟨tokens, reads, mirrors⟩ := along
  exact ⟨tokens ++ [token], reads.following legal, mirrors.following legalMirror⟩

theorem rewind (along : Alongside start session mirror) (checkpoint : Nat) :
    Alongside start (session.rewind checkpoint) (mirror.rewind checkpoint) := by
  obtain ⟨tokens, reads, mirrors⟩ := along
  exact ⟨tokens.take checkpoint, reads.rewind checkpoint, mirrors.rewind checkpoint⟩

theorem consumed_eq (along : Alongside start session mirror) : session.consumed = mirror.consumed := by
  obtain ⟨tokens, reads, mirrors⟩ := along
  rw [reads.consumed_eq, mirrors.consumed_eq]

section agreement

variable (agree : AgreeFrom start grammar.productions.toList other.productions.toList)
include agree

theorem legal_eq (along : Alongside start session mirror) : session.legal = mirror.legal := by
  obtain ⟨tokens, reads, mirrors⟩ := along
  apply TokenSet.eq_of_mem_iff
  intro token
  rw [reads.mem_legal_iff, mirrors.mem_legal_iff]
  exact exists_congr fun rest => agree.rewritesTo_iff

theorem isAccepting_eq (along : Alongside start session mirror) : session.isAccepting = mirror.isAccepting := by
  obtain ⟨tokens, reads, mirrors⟩ := along
  apply Bool.eq_iff_iff.mpr
  rw [reads.isAccepting_iff, mirrors.isAccepting_iff, derives_iff_rewritesTo, derives_iff_rewritesTo]
  exact agree.rewritesTo_iff

/-- What is legal in one session is legal in the other, and they go on alongside. -/
theorem step (along : Alongside start session mirror) {token : String} (legal : token ∈ session.legal.toList) :
    token ∈ mirror.legal.toList ∧ Alongside start (session.following token) (mirror.following token) := by
  have legalMirror : token ∈ mirror.legal.toList := along.legal_eq agree ▸ legal
  exact ⟨legalMirror, along.following legal legalMirror⟩

theorem advance (along : Alongside start session mirror) (token : String) :
    (session.respond (.advance token)).1 = (mirror.respond (.advance token)).1 ∧
      Alongside start (session.respond (.advance token)).2 (mirror.respond (.advance token)).2 := by
  have same := along.legal_eq agree
  by_cases legal : token ∈ session.legal.toList
  · obtain ⟨legalMirror, further⟩ := along.step agree legal
    simp only [respond, advance_of_legal legal, advance_of_legal legalMirror, further.legal_eq agree, true_and]
    exact further
  · simp only [respond, advance_of_not_legal legal, advance_of_not_legal (same ▸ legal), same, along.consumed_eq,
      true_and]
    exact along

/-- A push asks for nothing but legality, three times at most. -/
theorem push (along : Alongside start session mirror) (separator : Option String) (token : String) :
    (session.push separator token).answer = (mirror.push separator token).answer ∧
      Alongside start (session.push separator token).session (mirror.push separator token).session := by
  have same := along.legal_eq agree
  have count := along.consumed_eq
  by_cases legal : token ∈ session.legal.toList
  · obtain ⟨legalMirror, further⟩ := along.step agree legal
    rw [push_of_legal legal, push_of_legal legalMirror]
    exact ⟨congrArg _ (further.legal_eq agree), further⟩
  have illegalMirror : token ∉ mirror.legal.toList := same ▸ legal
  cases separator with
  | none =>
    rw [push_none legal, push_none illegalMirror, same, count]
    exact ⟨rfl, along⟩
  | some separator =>
    by_cases separatorLegal : separator ∈ session.legal.toList
    · obtain ⟨separatorMirror, between⟩ := along.step agree separatorLegal
      by_cases behind : token ∈ (session.following separator).legal.toList
      · obtain ⟨behindMirror, further⟩ := between.step agree behind
        rw [push_of_legal_behind legal separatorLegal behind,
          push_of_legal_behind illegalMirror separatorMirror behindMirror]
        exact ⟨congrArg _ (further.legal_eq agree), further⟩
      · have sameBehind := between.legal_eq agree
        rw [push_of_not_legal_behind legal separatorLegal behind,
          push_of_not_legal_behind illegalMirror separatorMirror (sameBehind ▸ behind), same, count, sameBehind]
        exact ⟨rfl, along⟩
    · rw [push_of_separator_not_legal legal separatorLegal,
        push_of_separator_not_legal illegalMirror (same ▸ separatorLegal), same, count]
      exact ⟨rfl, along⟩

/-- One request is answered alike, and leaves the sessions alongside. -/
theorem respond (along : Alongside start session mirror) (request : Request) :
    (session.respond request).1 = (mirror.respond request).1 ∧
      Alongside start (session.respond request).2 (mirror.respond request).2 := by
  cases request with
  | advance token => exact along.advance agree token
  | push separator token =>
    obtain ⟨same, further⟩ := along.push agree separator token
    exact ⟨congrArg _ same, further⟩
  | legal => exact ⟨congrArg _ (along.legal_eq agree), along⟩
  | isAccepting => exact ⟨congrArg _ (along.isAccepting_eq agree), along⟩
  | consumed => exact ⟨congrArg _ along.consumed_eq, along⟩
  | checkpoint => exact ⟨congrArg _ along.consumed_eq, along⟩
  | rewind checkpoint => exact ⟨rfl, along.rewind checkpoint⟩

theorem replies_eq (along : Alongside start session mirror) (requests : List Request) :
    session.replies requests = mirror.replies requests := by
  induction requests generalizing session mirror with
  | nil => rfl
  | cons request requests ih =>
    obtain ⟨same, further⟩ := along.respond agree request
    exact congrArg₂ _ same (ih further)

end agreement

end Alongside

/-- Sessions on two grammars answer alike from a start, whatever they are asked. -/
def Indistinguishable (grammar other : Grammar) (start : Name) : Prop :=
  ∃ initial mirror, ofStart grammar start = .ok initial ∧ ofStart other start = .ok mirror ∧
    ∀ requests, initial.replies requests = mirror.replies requests

theorem indistinguishable_of_agreeFrom (agree : AgreeFrom start grammar.productions.toList other.productions.toList)
    (heads : ∃ production ∈ grammar.productions.toList, production.head = start) :
    Indistinguishable grammar other start := by
  obtain ⟨initial, opened⟩ := exists_initial heads
  obtain ⟨production, member, rfl⟩ := heads
  obtain ⟨kept, _⟩ := (agree production).mp ⟨member, .itself _ _⟩
  obtain ⟨mirror, mirrored⟩ := exists_initial ⟨production, kept, rfl⟩
  exact ⟨initial, mirror, opened, mirrored, (Alongside.fresh opened mirrored).replies_eq agree⟩

/-- Sessions depend on nothing but the set of the reachable productions. Two lists in which that is the same set
make sessions that answer every sequence of requests alike. In particular the productions of unreachable heads
can be deleted: what is left is complete, and its sessions cannot be told from those on the whole list. -/
theorem indistinguishable_of_reachable :
    (∀ productions others grammar other start,
      Grammar.ofProductions productions = .ok grammar → Grammar.ofProductions others = .ok other →
      (∃ production ∈ productions, production.head = start) → (∃ production ∈ others, production.head = start) →
      (∀ production, production ∈ productions ∧ production.head ∉ grammar.unreachableFrom start ↔
        production ∈ others ∧ production.head ∉ other.unreachableFrom start) →
      Indistinguishable grammar other start) ∧
    ∀ productions grammar start, Grammar.ofProductions productions = .ok grammar →
      ∃ pruned,
        Grammar.ofProductions (productions.filter (·.head ∉ grammar.unreachableFrom start)) = .ok pruned ∧
        ((∃ production ∈ productions, production.head = start) → Indistinguishable grammar pruned start) := by
  constructor
  · intro productions others grammar other start built builtOther heads _ same
    have known := Grammar.productions_of_ofProductions built
    have knownOther := Grammar.productions_of_ofProductions builtOther
    subst known knownOther
    exact indistinguishable_of_agreeFrom (Grammar.agreeFrom_iff.mpr same) heads
  · intro productions grammar start built
    have known := Grammar.productions_of_ofProductions built
    subst known
    exact ⟨_, grammar.ofProductions_prune start, indistinguishable_of_agreeFrom Grammar.agreeFrom_prune⟩

/-- Sums of ones once more, in another order, without repetitions and without the loop. -/
def plainSums : List Production :=
  [⟨.given "sum", []⟩, ⟨.given "sum", [.terminal "1"]⟩, ⟨.given "sum", [.nonterminal (.given "sum")]⟩,
    ⟨.given "sum", [.nonterminal (.given "sum"), .nonterminal (.given "sum")]⟩]

theorem complete_plainSums : Complete plainSums := by decide

theorem agreeFrom_plainSums : AgreeFrom (.given "sum") sums plainSums := by
  intro production
  constructor
  · intro reachable
    obtain ⟨member, occurs⟩ := reachable
    have head : production.head ∈ [.given "sum"] := occurs.mem_of_closed (by decide) (by decide)
    have kept : ∀ production ∈ sums, production.head ∈ [.given "sum"] → production ∈ plainSums := by decide
    exact ⟨kept production member head, List.mem_singleton.mp head ▸ .itself _ _⟩
  · intro reachable
    obtain ⟨member, _⟩ := reachable
    have known : ∀ production ∈ plainSums, production ∈ sums ∧ production.head = .given "sum" := by decide
    obtain ⟨listed, head⟩ := known production member
    exact ⟨listed, head ▸ .itself _ _⟩

theorem indistinguishable_sums : ∃ grammar other, Grammar.ofProductions sums = .ok grammar ∧
    Grammar.ofProductions plainSums = .ok other ∧ Indistinguishable grammar other (.given "sum") := by
  have built : Grammar.ofProductions sums = .ok (.ofComplete sums complete_sums) :=
    Grammar.ofProductions_of_complete complete_sums
  have builtOther : Grammar.ofProductions plainSums = .ok (.ofComplete plainSums complete_plainSums) :=
    Grammar.ofProductions_of_complete complete_plainSums
  have agree : AgreeFrom (.given "sum") (Grammar.ofComplete sums complete_sums).productions.toList
      (Grammar.ofComplete plainSums complete_plainSums).productions.toList := agreeFrom_plainSums
  refine ⟨_, _, built, builtOther, indistinguishable_of_reachable.1 sums plainSums _ _ _ built builtOther
    ⟨⟨.given "sum", []⟩, by decide, rfl⟩ ⟨⟨.given "sum", []⟩, by decide, rfl⟩ ?_⟩
  exact Grammar.agreeFrom_iff.mp agree

end Session

end Viable
