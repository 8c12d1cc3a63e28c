import Viable.Proofs.Recovery.Unrefused

/-! Halting and skipping. Both policies push the same tokens as far as the first refusal. A refused token leaves nothing
behind, so a skipping feeding can be repeated without the tokens that it has dropped, and be interrupted anywhere. -/

namespace Viable

variable {grammar : Grammar} {separator : Option String} {policy : FailurePolicy} {session final : Session grammar}

/-- A refused push gives the session back as it was. -/
theorem Session.session_push_of_isRefused {token : String} (refused : (session.push separator token).isRefused) :
    (session.push separator token).session = session := by
  have advanced := session.advanceAll_added separator token
  -- what is refused adds nothing, so the push was an advance over no tokens
  cases outcome : session.push separator token with
  | accepted | repaired => simp [outcome, Outcome.isRefused] at refused
  | refused refusal after =>
    rw [outcome] at advanced
    exact (Except.ok.inj advanced).symm

/-- The steps over the tokens that were not dropped. -/
def kept (steps : List (Step grammar)) : List (Step grammar) := steps.filter fun step => !step.isRefused

/-- The same steps under numbers in a row. -/
def numbered (first : Nat) (steps : List (Step grammar)) : List (Step grammar) :=
  (steps.zipIdx first).map fun (step, index) => { step with index }

section kept

variable {steps : List (Step grammar)} {index : Nat} {token : Token} {outcome : Outcome grammar}

theorem kept_cons_of_held (held : outcome.isRefused = false) :
    kept (⟨index, token, outcome⟩ :: steps) = ⟨index, token, outcome⟩ :: kept steps := by
  simp [kept, Step.isRefused, held]

theorem kept_cons_of_isRefused (refused : outcome.isRefused) :
    kept (⟨index, token, outcome⟩ :: steps) = kept steps := by
  simp [kept, Step.isRefused, refused]

theorem noneRefused_kept (steps : List (Step grammar)) : NoneRefused (kept steps) := by
  simp [NoneRefused, kept]

theorem noneRefused_numbered (unrefused : NoneRefused steps) (first : Nat) : NoneRefused (numbered first steps) := by
  intro step member
  obtain ⟨⟨other, index⟩, listed, rfl⟩ := List.mem_map.mp member
  exact unrefused other (List.fst_mem_of_mem_zipIdx listed)

/-- Without its refused tokens a run takes the others through the same sessions. -/
theorem Ran.ran_kept (ran : Ran separator session steps final) : Ran separator session (kept steps) final := by
  induction ran with
  | done session => exact .done session
  | @step session final steps index token _ ih =>
    cases refused : (session.push separator token.text).isRefused with
    | false =>
      rw [kept_cons_of_held refused]
      exact .step index token ih
    | true =>
      -- the rest of the run begins where the refused token came
      rw [kept_cons_of_isRefused refused]
      rwa [Session.session_push_of_isRefused refused] at ih

/-- A run without a refusal is what is made of its tokens under any policy. -/
theorem Ran.feedFrom_eq (ran : Ran separator session steps final) (unrefused : NoneRefused steps)
    (policy : FailurePolicy) (first : Nat) :
    Session.feedFrom separator policy first session (steps.map (·.token)) = ⟨numbered first steps, false, final⟩ := by
  induction ran generalizing first with
  | done session => rfl
  | step index token _ ih =>
    obtain ⟨held, unrefused⟩ := List.forall_mem_cons.mp unrefused
    rw [List.map_cons, Session.feedFrom_cons held, ih unrefused (first + 1)]
    rfl

end kept

namespace Session

/-- A skipping feeding goes on behind every token. -/
theorem feedFrom_skip_cons (index : Nat) (session : Session grammar) (token : Token) (rest : List Token) :
    feedFrom separator .skip index session (token :: rest) =
      let back := feedFrom separator .skip (index + 1) (session.push separator token.text).session rest
      ⟨⟨index, token, session.push separator token.text⟩ :: back.steps, back.halted, back.final⟩ := by
  simp [feedFrom]

/-- A halting feeding ends with the first refusal. -/
theorem feedFrom_halt_cons_of_isRefused {token : Token} (refused : (session.push separator token.text).isRefused)
    (index : Nat) (rest : List Token) :
    feedFrom separator .halt index session (token :: rest) =
      ⟨[⟨index, token, session.push separator token.text⟩], true, session⟩ := by
  simp [feedFrom, refused, session_push_of_isRefused refused]

/-- What halts a feeding is a refusal under the halting policy. -/
theorem halted_feedFrom_iff {index : Nat} {tokens : List Token} :
    (feedFrom separator policy index session tokens).halted ↔
      policy = .halt ∧ ∃ step ∈ (feedFrom separator policy index session tokens).steps, step.isRefused := by
  induction tokens generalizing index session with
  | nil => simp [feedFrom]
  | cons token rest ih =>
    cases refused : (session.push separator token.text).isRefused with
    | false =>
      rw [feedFrom_cons refused]
      simp only [ih, List.exists_mem_cons_iff, Step.isRefused, refused, Bool.false_eq_true, false_or]
    | true =>
      cases policy with
      | halt => simp [feedFrom_halt_cons_of_isRefused refused, Step.isRefused, refused]
      | skip => simp [feedFrom_skip_cons, ih]

theorem halted_skip (index : Nat) (session : Session grammar) (tokens : List Token) :
    (feedFrom separator .skip index session tokens).halted = false := by
  rw [← Bool.not_eq_true, halted_feedFrom_iff]
  exact fun halted => nomatch halted.1

/-- The steps of a halting feeding are those of a skipping one, as far as the first refusal and including it. -/
theorem steps_halt (index : Nat) (session : Session grammar) (tokens : List Token) :
    (feedFrom separator .halt index session tokens).steps =
      (feedFrom separator .skip index session tokens).steps.take
        ((feedFrom separator .skip index session tokens).steps.findIdx (·.isRefused) + 1) := by
  induction tokens generalizing index session with
  | nil => rfl
  | cons token rest ih =>
    rw [feedFrom_skip_cons]
    cases refused : (session.push separator token.text).isRefused with
    | false => simp [feedFrom_cons refused, List.findIdx_cons, Step.isRefused, refused, ih]
    | true => simp [feedFrom_halt_cons_of_isRefused refused, List.findIdx_cons, Step.isRefused, refused]

theorem map_token_skip (index : Nat) (session : Session grammar) (tokens : List Token) :
    (feedFrom separator .skip index session tokens).steps.map (·.token) = tokens := by
  induction tokens generalizing index session with
  | nil => rfl
  | cons token rest ih =>
    rw [feedFrom_skip_cons]
    exact congrArg _ (ih (index + 1) _)

/-- Nothing but the numbers of the steps depends on the first of them. -/
theorem feedFrom_add (separator : Option String) (policy : FailurePolicy) (index shift : Nat)
    (session : Session grammar) (tokens : List Token) :
    feedFrom separator policy (index + shift) session tokens =
      let unshifted := feedFrom separator policy index session tokens
      ⟨unshifted.steps.map fun step => { step with index := step.index + shift }, unshifted.halted,
        unshifted.final⟩ := by
  induction tokens generalizing index session with
  | nil => rfl
  | cons token rest ih =>
    unfold feedFrom
    dsimp only
    split
    · rfl
    · rw [Nat.add_right_comm, ih]
      rfl

/-- A skipping feeding can be interrupted between any two tokens. -/
theorem feedFrom_skip_append (index : Nat) (session : Session grammar) (first second : List Token) :
    feedFrom separator .skip index session (first ++ second) =
      let front := feedFrom separator .skip index session first
      let back := feedFrom separator .skip (index + first.length) front.final second
      ⟨front.steps ++ back.steps, back.halted, back.final⟩ := by
  induction first generalizing index session with
  | nil => rfl
  | cons token first ih =>
    rw [List.cons_append, feedFrom_skip_cons, feedFrom_skip_cons, ih]
    simp only [List.length_cons, List.cons_append, Nat.add_assoc, Nat.add_comm 1]

/-- Halting and skipping agree, and refused tokens leave no trace. A skipping feeding makes a step of every token and
never halts, while a halting one makes the same steps as far as the first refusal and halts if there is one; all steps
are located at their tokens. Under either policy, the tokens that a skipping feeding keeps have the same outcomes
again when they are fed alone, none of them is refused, and they lead to the same session. The skipping feeding of two
lists in a row is that of the first and then, with the numbers moved on, that of the second. -/
theorem refused_without_trace (session : Session grammar) (separator : Option String) :
    (∀ tokens,
      let halting := session.feed separator .halt tokens
      let skipping := session.feed separator .skip tokens
      halting.steps = skipping.steps.take (skipping.steps.findIdx (·.isRefused) + 1) ∧
      (halting.halted ↔ ∃ step ∈ halting.steps, step.isRefused) ∧
      skipping.halted = false ∧ skipping.steps.map (·.token) = tokens ∧
      ∀ policy,
        (session.feed separator policy tokens).steps.map (fun step => (step.token, step.location)) <+:
          tokens.zipIdx.map (fun (token, index) => (token, .token index token.start token.stop)) ∧
        let again := session.feed separator policy ((kept skipping.steps).map (·.token))
        again = ⟨numbered 0 (kept skipping.steps), false, skipping.final⟩ ∧ again.refusals = 0) ∧
    ∀ first second,
      let front := session.feed separator .skip first
      let back := front.final.feed separator .skip second
      session.feed separator .skip (first ++ second) =
        ⟨front.steps ++ back.steps.map (fun step => { step with index := step.index + first.length }), false,
          back.final⟩ := by
  refine ⟨fun tokens => ?_, fun first second => ?_⟩
  · have ran : Ran separator session (session.feed separator .skip tokens).steps
        (session.feed separator .skip tokens).final := feedFrom_ran 0 session tokens
    refine ⟨steps_halt 0 session tokens, ?_, halted_skip 0 session tokens, map_token_skip 0 session tokens, ?_⟩
    · exact halted_feedFrom_iff.trans (and_iff_right rfl)
    · intro policy
      have again := ran.ran_kept.feedFrom_eq (noneRefused_kept _) policy 0
      refine ⟨feedFrom_located separator policy 0 session tokens, again, ?_⟩
      rw [feed, again]
      exact countP_isRefused_eq_zero_iff.mpr (noneRefused_numbered (noneRefused_kept _) 0)
  · simp only [feed, feedFrom_skip_append, feedFrom_add separator .skip 0 first.length, halted_skip]

end Session

end Viable
