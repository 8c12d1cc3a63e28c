import Viable.Proofs.Recovery.Push

/-! Feeding a whole list of tokens. Where a plain advance gets through, recovery has nothing to do, and a run of
tokens can be fed piece by piece. -/

namespace Viable

variable {grammar : Grammar} {separator : Option String} {policy : FailurePolicy}

/-- Every token was accepted as it came. -/
def AllAccepted (steps : List (Step grammar)) : Prop := ∀ step ∈ steps, ∃ after, step.outcome = .accepted after

theorem countP_isRefused_of_allAccepted {steps : List (Step grammar)} (accepted : AllAccepted steps) :
    steps.countP (·.isRefused) = 0 := by
  rw [List.countP_eq_zero]
  intro step member
  obtain ⟨after, same⟩ := accepted step member
  simp [Step.isRefused, same, Outcome.isRefused]

namespace Session

variable {session final : Session grammar}

/-- A token that is not refused is one step, and the rest is fed to the session behind it. -/
theorem feedFrom_cons {index : Nat} {token : Token} {rest : List Token}
    (held : (session.push separator token.text).isRefused = false) :
    feedFrom separator policy index session (token :: rest) =
      let back := feedFrom separator policy (index + 1) (session.push separator token.text).session rest
      ⟨⟨index, token, session.push separator token.text⟩ :: back.steps, back.halted, back.final⟩ := by
  simp [feedFrom, held]

/-- What a plain advance gets through is accepted token by token, before anything that comes behind it. The steps are
the same under any recovery and policy. -/
theorem feedFrom_append_of_advanceAll (index : Nat) {first : List Token} {between : Session grammar}
    (advanced : session.advanceAll (first.map (·.text)) = .ok between) :
    ∃ steps, steps.map (·.token) = first ∧ AllAccepted steps ∧ ∀ separator policy second,
      feedFrom separator policy index session (first ++ second) =
        let back := feedFrom separator policy (index + first.length) between second
        ⟨steps ++ back.steps, back.halted, back.final⟩ := by
  induction first generalizing index session with
  | nil =>
    cases advanced
    exact ⟨[], rfl, fun _ absent => absurd absent List.not_mem_nil, fun _ _ _ => rfl⟩
  | cons token first ih =>
    obtain ⟨legal, advanced⟩ := advanceAll_cons_eq_ok_iff.mp advanced
    obtain ⟨steps, order, plain, fed⟩ := ih (index + 1) advanced
    refine ⟨⟨index, token, .accepted (session.following token.text)⟩ :: steps, by rw [List.map_cons, order],
      List.forall_mem_cons.mpr ⟨⟨_, rfl⟩, plain⟩, fun separator policy second => ?_⟩
    have accepted := push_of_legal legal separator
    rw [List.cons_append, feedFrom_cons (by rw [accepted]; rfl), accepted]
    simp only [Outcome.session, fed, List.length_cons, List.cons_append, Nat.add_assoc, Nat.add_comm 1]

theorem feedFrom_of_advanceAll (separator : Option String) (policy : FailurePolicy) (index : Nat)
    {tokens : List Token} (advanced : session.advanceAll (tokens.map (·.text)) = .ok final) :
    ∃ steps, steps.map (·.token) = tokens ∧ AllAccepted steps ∧
      feedFrom separator policy index session tokens = ⟨steps, false, final⟩ := by
  obtain ⟨steps, order, plain, fed⟩ := feedFrom_append_of_advanceAll index advanced
  refine ⟨steps, order, plain, ?_⟩
  simpa only [List.append_nil, feedFrom] using fed separator policy []

/-- A sentence is fed without a repair or a refusal. -/
theorem feed_of_derives {start : Name} (opened : ofStart grammar start = .ok session) {tokens : List Token}
    (derives : Derives grammar.productions.toList [.nonterminal start] (tokens.map (·.text)))
    (separator : Option String) (policy : FailurePolicy) :
    let transcript := session.feed separator policy tokens
    transcript.steps.map (·.token) = tokens ∧ AllAccepted transcript.steps ∧ transcript.halted = false ∧
      transcript.isAccepting := by
  obtain ⟨final, advanced, _, accepting⟩ := (Reads.fresh opened).advanceAll_of_derives derives
  obtain ⟨steps, order, plain, fed⟩ := feedFrom_of_advanceAll separator policy 0 advanced
  rw [feed, fed]
  exact ⟨order, plain, rfl, accepting⟩

/-- Where a plain advance would get through with one separator put in, and its place is in front of a token
that is refused without it, feeding puts it there. -/
theorem feedFrom_of_advanceAll_separator (policy : FailurePolicy) (index : Nat) {first rest : List Token}
    {token : Token} {separator : String} {between : Session grammar}
    (advanced : session.advanceAll (first.map (·.text)) = .ok between)
    (illegal : token.text ∉ between.legal.toList)
    (behind : between.advanceAll (separator :: token.text :: rest.map (·.text)) = .ok final) :
    ∃ front back after, front.map (·.token) = first ∧ AllAccepted front ∧
      back.map (·.token) = rest ∧ AllAccepted back ∧
      feedFrom (some separator) policy index session (first ++ token :: rest) =
        ⟨front ++ ⟨index + first.length, token, .repaired separator after⟩ :: back, false, final⟩ := by
  obtain ⟨separatorLegal, behind⟩ := advanceAll_cons_eq_ok_iff.mp behind
  obtain ⟨legalBehind, behind⟩ := advanceAll_cons_eq_ok_iff.mp behind
  have repaired := push_of_legal_behind illegal separatorLegal legalBehind
  obtain ⟨front, order, plain, fed⟩ := feedFrom_append_of_advanceAll index advanced
  obtain ⟨back, orderBack, plainBack, fedBack⟩ :=
    feedFrom_of_advanceAll (some separator) policy (index + first.length + 1) behind
  refine ⟨front, back, (between.following separator).following token.text, order, plain, orderBack, plainBack, ?_⟩
  rw [fed, feedFrom_cons (by rw [repaired]; rfl), repaired]
  simp only [Outcome.session, fedBack]

end Session

end Viable
