import Viable.Proofs.Recovery.Correction
import Viable.Proofs.Recovery.Feeding

/-! Feedings in which no token is refused. The policy is never asked for then, every token has its step, and the
corrected stream holds all of the input. -/

namespace Viable

variable {grammar : Grammar} {separator : Option String} {policy : FailurePolicy} {session : Session grammar}

/-- No token was dropped. -/
def NoneRefused (steps : List (Step grammar)) : Prop := ∀ step ∈ steps, step.isRefused = false

theorem countP_isRefused_eq_zero_iff {steps : List (Step grammar)} :
    steps.countP (·.isRefused) = 0 ↔ NoneRefused steps := by
  simp only [List.countP_eq_zero, Bool.not_eq_true, NoneRefused]

/-- A stream that consists of all tokens of the input in order, some of them behind one inserted separator. -/
inductive Separated (separator : Option String) : List String → List String → Prop where
  | nil : Separated separator [] []
  | keep (token : String) {tokens stream : List String} (separated : Separated separator tokens stream) :
      Separated separator (token :: tokens) (token :: stream)
  | insert {inserted : String} (given : inserted ∈ separator) (token : String) {tokens stream : List String}
      (separated : Separated separator tokens stream) :
      Separated separator (token :: tokens) (inserted :: token :: stream)

namespace Separated

variable {tokens stream : List String}

/-- Where no separator shows in the stream, none has been inserted. -/
theorem eq_of_absent (separated : Separated separator tokens stream)
    (absent : ∀ inserted ∈ separator, inserted ∉ stream) : stream = tokens := by
  induction separated with
  | nil => rfl
  | keep token _ ih =>
    exact congrArg _ (ih fun inserted given present => absent inserted given (List.mem_cons_of_mem _ present))
  | insert given => exact absurd List.mem_cons_self (absent _ given)

/-- A push that is not refused keeps its token, alone or behind the separator. -/
theorem added {outcome : Outcome grammar} (held : outcome.isRefused = false) (session : Session grammar)
    (token : String) (separated : Separated separator tokens stream) :
    Separated separator (token :: tokens) (outcome.added session separator token ++ stream) := by
  rcases outcome.added_cases session separator token with ⟨refused, -⟩ | same | ⟨inserted, given, same⟩
  · rw [refused] at held
    contradiction
  · rw [same]
    exact separated.keep token
  · rw [same]
    exact separated.insert given token

end Separated

theorem separated_corrected {steps : List (Step grammar)} (unrefused : NoneRefused steps) (session : Session grammar) :
    Separated separator (steps.map (·.token.text)) (corrected separator session steps) := by
  induction steps generalizing session with
  | nil => exact .nil
  | cons step rest ih =>
    obtain ⟨held, unrefused⟩ := List.forall_mem_cons.mp unrefused
    exact (ih unrefused step.outcome.session).added held session step.token.text

namespace Session

/-- Without a refusal the feeding goes through to the end, and goes the same way under any policy. -/
theorem feedFrom_of_noneRefused {index : Nat} {tokens : List Token}
    (unrefused : NoneRefused (feedFrom separator policy index session tokens).steps) (other : FailurePolicy) :
    feedFrom separator other index session tokens = feedFrom separator policy index session tokens ∧
      (feedFrom separator policy index session tokens).steps.map (·.token) = tokens := by
  induction tokens generalizing index session with
  | nil => exact ⟨rfl, rfl⟩
  | cons token rest ih =>
    have held : (session.push separator token.text).isRefused = false := by
      apply unrefused ⟨index, token, session.push separator token.text⟩
      unfold feedFrom
      dsimp only
      split <;> exact List.mem_cons_self
    rw [feedFrom_cons held] at unrefused ⊢
    obtain ⟨same, order⟩ := ih (List.forall_mem_cons.mp unrefused).2
    rw [feedFrom_cons held, same]
    exact ⟨rfl, by rw [List.map_cons, order]⟩

variable {start : Name}

/-- A feeding succeeds when nothing is refused and the session accepts in the end. Separators put in front of some
tokens have then made a sentence of them. -/
theorem exists_separated_of_feed (opened : ofStart grammar start = .ok session) {tokens : List Token}
    (unrefused : (session.feed separator policy tokens).refusals = 0)
    (accepting : (session.feed separator policy tokens).isAccepting) :
    ∃ stream, Separated separator (tokens.map (·.text)) stream ∧
      Derives grammar.productions.toList [.nonterminal start] stream := by
  have held : NoneRefused (session.feed separator policy tokens).steps := countP_isRefused_eq_zero_iff.mp unrefused
  have texts : (session.feed separator policy tokens).steps.map (·.token.text) = tokens.map (·.text) :=
    calc
      _ = ((session.feed separator policy tokens).steps.map (·.token)).map (·.text) := List.map_map.symm
      _ = tokens.map (·.text) := congrArg _ (feedFrom_of_noneRefused held policy).2
  have ran : Ran separator session (session.feed separator policy tokens).steps
      (session.feed separator policy tokens).final := feedFrom_ran 0 session tokens
  have reads := (Reads.fresh opened).advanceAll ran.advanceAll_corrected
  exact ⟨_, texts ▸ separated_corrected held session, reads.isAccepting_iff.mp accepting⟩

/-- A sentence succeeds as it stands. -/
theorem feed_succeeds_of_derives (opened : ofStart grammar start = .ok session) {tokens : List Token}
    (derives : Derives grammar.productions.toList [.nonterminal start] (tokens.map (·.text)))
    (separator : Option String) (policy : FailurePolicy) :
    (session.feed separator policy tokens).refusals = 0 ∧ (session.feed separator policy tokens).isAccepting := by
  obtain ⟨_, accepted, _, accepting⟩ := feed_of_derives opened derives separator policy
  exact ⟨countP_isRefused_of_allAccepted accepted, accepting⟩

/-- Where no sentence has a separator in it, nothing else succeeds. -/
theorem feed_succeeds_iff_derives (opened : ofStart grammar start = .ok session) {tokens : List Token}
    (absent : ∀ stream, Derives grammar.productions.toList [.nonterminal start] stream →
      ∀ inserted ∈ separator, inserted ∉ stream) :
    ((session.feed separator policy tokens).refusals = 0 ∧ (session.feed separator policy tokens).isAccepting) ↔
      Derives grammar.productions.toList [.nonterminal start] (tokens.map (·.text)) := by
  constructor
  · rintro ⟨refusals, accepting⟩
    obtain ⟨stream, separated, derives⟩ := exists_separated_of_feed opened refusals accepting
    have untouched := separated.eq_of_absent (absent stream derives)
    exact untouched ▸ derives
  · exact fun derives => feed_succeeds_of_derives opened derives separator policy

end Session

end Viable
