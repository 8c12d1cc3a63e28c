import Viable.Proofs.Recovery.Push

/-! Feeding with recovery is advancing over a corrected stream: the input with the refused tokens dropped
and with a separator in front of each token that was legal only behind one. -/

namespace Viable

variable {grammar : Grammar} {separator : Option String} {policy : FailurePolicy}

/-- What steps that begin at a session put behind the consumed tokens, one step after the other. -/
def corrected (separator : Option String) : Session grammar → List (Step grammar) → List String
  | _, [] => []
  | session, step :: rest =>
    step.outcome.added session separator step.token.text ++ corrected separator step.outcome.session rest

/-- The steps are pushes of their tokens, each at the session that the one before has left. -/
inductive Ran (separator : Option String) : Session grammar → List (Step grammar) → Session grammar → Prop where
  | done (session : Session grammar) : Ran separator session [] session
  | step {session final : Session grammar} {steps : List (Step grammar)} (index : Nat) (token : Token)
      (ran : Ran separator (session.push separator token.text).session steps final) :
      Ran separator session (⟨index, token, session.push separator token.text⟩ :: steps) final

/-- A stream that consists of tokens of the input in order, some of them behind one inserted separator. -/
inductive Mended (separator : Option String) : List String → List String → Prop where
  | nil : Mended separator [] []
  | drop (token : String) {tokens stream : List String} (mended : Mended separator tokens stream) :
      Mended separator (token :: tokens) stream
  | keep (token : String) {tokens stream : List String} (mended : Mended separator tokens stream) :
      Mended separator (token :: tokens) (token :: stream)
  | insert {inserted : String} (given : inserted ∈ separator) (token : String) {tokens stream : List String}
      (mended : Mended separator tokens stream) : Mended separator (token :: tokens) (inserted :: token :: stream)

theorem Outcome.legal_of_answer {outcome : Outcome grammar} {legal : TokenSet} (answer : outcome.answer = .ok legal) :
    outcome.session.legal = legal := by
  cases outcome with
  | accepted after => exact Except.ok.inj answer
  | repaired inserted after => exact Except.ok.inj answer
  | refused refusal after => cases answer

/-- A push adds nothing if it is refused, and else its token, alone or behind the separator. -/
theorem Outcome.added_cases (outcome : Outcome grammar) (session : Session grammar) (separator : Option String)
    (token : String) :
    outcome.isRefused ∧ outcome.added session separator token = [] ∨
      outcome.added session separator token = [token] ∨
      ∃ inserted ∈ separator, outcome.added session separator token = [inserted, token] := by
  have put : session.inserted separator token = [] ∨ ∃ inserted ∈ separator, session.inserted separator token = [inserted] := by
    unfold Session.inserted
    split
    case isTrue => exact .inl rfl
    case isFalse =>
      cases separator with
      | none => exact .inl rfl
      | some separator =>
        by_cases legal : separator ∈ session.legal.toList
        · exact .inr ⟨separator, rfl, by simp [legal]⟩
        · exact .inl (by simp [legal])
  cases outcome with
  | refused refusal after => exact .inl ⟨rfl, rfl⟩
  | accepted after | repaired _ after =>
    rcases put with same | ⟨inserted, given, same⟩
    · exact .inr (.inl (by simp [added, answer, same]))
    · exact .inr (.inr ⟨inserted, given, by simp [added, answer, same]⟩)

theorem feedFrom_ran (index : Nat) (session : Session grammar) (tokens : List Token) :
    Ran separator session (Session.feedFrom separator policy index session tokens).steps
      (Session.feedFrom separator policy index session tokens).final := by
  induction tokens generalizing index session with
  | nil => exact .done session
  | cons token rest ih =>
    unfold Session.feedFrom
    dsimp only
    split
    · exact .step index token (.done _)
    · exact .step index token (ih (index + 1) _)

/-- As far as the feeding goes there is one step for each token, located at its index and its bytes. -/
theorem feedFrom_located (separator : Option String) (policy : FailurePolicy) (index : Nat) (session : Session grammar)
    (tokens : List Token) :
    (Session.feedFrom separator policy index session tokens).steps.map (fun step => (step.token, step.location)) <+:
      (tokens.zipIdx index).map fun (token, place) => (token, .token place token.start token.stop) := by
  induction tokens generalizing index session with
  | nil => exact List.prefix_rfl
  | cons token rest ih =>
    unfold Session.feedFrom
    dsimp only
    split
    · exact ⟨_, rfl⟩
    · exact List.cons_prefix_cons.mpr ⟨rfl, ih (index + 1) _⟩

theorem feedFrom_tokens (index : Nat) (session : Session grammar) (tokens : List Token) :
    (Session.feedFrom separator policy index session tokens).steps.map (·.token) <+: tokens := by
  have located := (feedFrom_located separator policy index session tokens).map Prod.fst
  have order : ((tokens.zipIdx index).map fun (token, place) =>
      (token, Location.token place token.start token.stop)).map Prod.fst = tokens :=
    List.map_map.trans (List.zipIdx_map_fst index tokens)
  rwa [order, List.map_map] at located

namespace Ran

variable {session final : Session grammar}

/-- The run as a whole is a plain advance, since every push is. -/
theorem advanceAll_corrected {steps : List (Step grammar)} (ran : Ran separator session steps final) :
    session.advanceAll (corrected separator session steps) = .ok final := by
  induction ran with
  | done session => rfl
  | @step session final steps index token _ ih =>
    rw [corrected, Session.advanceAll_append_of_ok (session.advanceAll_added separator token.text)]
    exact ih

theorem split {before after : List (Step grammar)} (ran : Ran separator session (before ++ after) final) :
    ∃ between, Ran separator session before between ∧ Ran separator between after final := by
  induction before generalizing session with
  | nil => exact ⟨session, .done session, ran⟩
  | cons step before ih =>
    cases ran with
    | step index token ran =>
      obtain ⟨between, first, second⟩ := ih ran
      exact ⟨between, .step index token first, second⟩

/-- A run ends at the session that its last step has left. -/
theorem session_of_last {before : List (Step grammar)} {step : Step grammar}
    (ran : Ran separator session (before ++ [step]) final) : step.outcome.session = final := by
  obtain ⟨between, _, last⟩ := ran.split
  cases last with
  | step index token done =>
    cases done
    rfl

end Ran

namespace Mended

/-- Tokens that are not reached are dropped. -/
theorem append_dropped {tokens stream : List String} (mended : Mended separator tokens stream)
    (unreached : List String) : Mended separator (tokens ++ unreached) stream := by
  induction mended with
  | nil =>
    induction unreached with
    | nil => exact .nil
    | cons token unreached ih => exact ih.drop token
  | drop token _ ih => exact ih.drop token
  | keep token _ ih => exact ih.keep token
  | insert given token _ ih => exact ih.insert given token

/-- One push drops its token, or keeps it, or keeps it behind the separator. -/
theorem added (outcome : Outcome grammar) (session : Session grammar) (token : String)
    {tokens stream : List String} (mended : Mended separator tokens stream) :
    Mended separator (token :: tokens) (outcome.added session separator token ++ stream) := by
  rcases outcome.added_cases session separator token with ⟨-, same⟩ | same | ⟨inserted, given, same⟩
  · rw [same]
    exact mended.drop token
  · rw [same]
    exact mended.keep token
  · rw [same]
    exact mended.insert given token

end Mended

theorem mended_corrected (session : Session grammar) (steps : List (Step grammar)) :
    Mended separator (steps.map (·.token.text)) (corrected separator session steps) := by
  induction steps generalizing session with
  | nil => exact .nil
  | cons step rest ih => exact (ih step.outcome.session).added step.outcome session step.token.text

/-- Feeding with recovery does what plain advancing over the corrected stream does. -/
theorem feed_corrected {start : Name} {initial : Session grammar}
    (opened : Session.ofStart grammar start = .ok initial) (separator : Option String) (policy : FailurePolicy)
    (tokens : List Token) :
    let transcript := initial.feed separator policy tokens
    let stream := corrected separator initial transcript.steps
    initial.advanceAll stream = .ok transcript.final ∧
    transcript.final.consumed = stream.length ∧
    (∀ before step after legal, transcript.steps = before ++ step :: after → step.outcome.answer = .ok legal →
      ∃ plain, initial.advanceAll (corrected separator initial (before ++ [step])) = .ok plain ∧
        plain.legal = legal) ∧
    (transcript.isAccepting ↔ RewritesTo grammar.productions.toList [.nonterminal start] (spell stream)) ∧
    Mended separator (tokens.map (·.text)) stream := by
  intro transcript stream
  have ran : Ran separator initial transcript.steps transcript.final := feedFrom_ran 0 initial tokens
  have advanced : initial.advanceAll stream = .ok transcript.final := ran.advanceAll_corrected
  have reads : Session.Reads grammar start stream transcript.final :=
    (Session.Reads.fresh opened).advanceAll advanced
  refine ⟨advanced, reads.consumed_eq, fun before step after legal same answer => ?_, ?_, ?_⟩
  · rw [same, List.append_cons] at ran
    obtain ⟨between, first, _⟩ := ran.split
    refine ⟨between, first.advanceAll_corrected, ?_⟩
    rw [← first.session_of_last, Outcome.legal_of_answer answer]
  · exact reads.isAccepting_iff.trans derives_iff_rewritesTo
  · have reached : transcript.steps.map (·.token) <+: tokens := feedFrom_tokens 0 initial tokens
    obtain ⟨unreached, whole⟩ := reached
    have mended : Mended separator (transcript.steps.map (·.token.text)) stream := mended_corrected initial _
    have extended := mended.append_dropped (unreached.map (·.text))
    rw [← whole, List.map_append, List.map_map]
    exact extended

/-- The missing separator of a pair is inserted once. -/
theorem feed_pair : ∃ initial, Session.ofStart Session.pairs Session.pairing.head = .ok initial ∧
    corrected (some ";") initial (initial.feed (some ";") .skip [⟨"x", 0, 1⟩, ⟨"x", 2, 3⟩]).steps =
      ["x", ";", "x"] ∧
    (initial.feed (some ";") .skip [⟨"x", 0, 1⟩, ⟨"x", 2, 3⟩]).isAccepting := by
  obtain ⟨initial, opened⟩ := Session.exists_pairs
  obtain ⟨first, illegal, separatorLegal, legalBehind⟩ := Session.legal_pairs opened
  have stream : corrected (some ";") initial
      (initial.feed (some ";") .skip [⟨"x", 0, 1⟩, ⟨"x", 2, 3⟩]).steps = ["x", ";", "x"] := by
    simp [Session.feed, Session.feedFrom, Session.push_of_legal first,
      Session.push_of_legal_behind illegal separatorLegal legalBehind, corrected, Outcome.session, Outcome.added,
      Outcome.answer, Outcome.isRefused, Session.inserted, first, illegal, separatorLegal]
  obtain ⟨_, _, _, accepting, _⟩ := feed_corrected opened (some ";") .skip [⟨"x", 0, 1⟩, ⟨"x", 2, 3⟩]
  refine ⟨initial, opened, stream, accepting.mpr ?_⟩
  rw [stream]
  exact Session.derives_pairing.rewritesTo

end Viable
