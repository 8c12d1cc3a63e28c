import Viable.Proofs.Recovery.Push

/-! Sessions under calls in any order. A session has no memory beyond the tokens that it has consumed and not
given back: whatever has been refused, rewound or given up on the way has left no trace in its columns. -/

namespace Viable.Session

/-- A call that can change a session or is made to undo a change. The checkpoint of a rewind may have been
taken at any time, on this session or on another. -/
inductive Call where
  | advance (token : String)
  | checkpoint
  | rewind (checkpoint : Checkpoint)
deriving DecidableEq

variable {grammar : Grammar} {start : Name} {tokens : List String} {session : Session grammar}

/-- The session behind a call. -/
def call (session : Session grammar) : Call → Session grammar
  | .advance token =>
    match session.advance token with
    | .ok after => after
    | .error _ => session
  | .checkpoint => session
  | .rewind checkpoint => session.rewind checkpoint

def run (session : Session grammar) (calls : List Call) : Session grammar := calls.foldl call session

/-- What a call makes of the tokens that are left. -/
def surviving (session : Session grammar) (tokens : List String) : Call → List String
  | .advance token =>
    match session.advance token with
    | .ok _ => tokens ++ [token]
    | .error _ => tokens
  | .checkpoint => tokens
  | .rewind checkpoint => tokens.take checkpoint

/-- The tokens that are left after some calls, of those before the calls and those advanced over. -/
def survivors : Session grammar → List String → List Call → List String
  | _, tokens, [] => tokens
  | session, tokens, call :: calls => survivors (session.call call) (session.surviving tokens call) calls

theorem run_append (session : Session grammar) (first second : List Call) :
    session.run (first ++ second) = (session.run first).run second := List.foldl_append

theorem survivors_append (session : Session grammar) (tokens : List String) (first second : List Call) :
    session.survivors tokens (first ++ second) =
      (session.run first).survivors (session.survivors tokens first) second := by
  induction first generalizing session tokens with
  | nil => rfl
  | cons call first ih => exact ih (session.call call) (session.surviving tokens call)

/-- The last call is made at the session that the others have left. -/
theorem run_concat (session : Session grammar) (calls : List Call) (call : Call) :
    session.run (calls ++ [call]) = (session.run calls).call call := run_append session calls [call]

theorem survivors_concat (session : Session grammar) (tokens : List String) (calls : List Call) (call : Call) :
    session.survivors tokens (calls ++ [call]) =
      (session.run calls).surviving (session.survivors tokens calls) call :=
  survivors_append session tokens calls [call]

theorem call_of_ok {token : String} {after : Session grammar} (advanced : session.advance token = .ok after) :
    session.call (.advance token) = after ∧ session.surviving tokens (.advance token) = tokens ++ [token] := by
  simp only [call, surviving, advanced, and_self]

theorem call_of_error {token : String} {rejection : Rejection}
    (refused : session.advance token = .error rejection) :
    session.call (.advance token) = session ∧ session.surviving tokens (.advance token) = tokens := by
  simp only [call, surviving, refused, and_self]

/-- After a call, the session has consumed the tokens that survive it and no others. -/
theorem Reads.call (reads : Reads grammar start tokens session) (call : Call) :
    Reads grammar start (session.surviving tokens call) (session.call call) := by
  cases call with
  | advance token =>
    cases answer : session.advance token with
    | ok after =>
      obtain ⟨same, sameTokens⟩ := call_of_ok answer
      rw [same, sameTokens]
      exact reads.next answer
    | error rejection =>
      obtain ⟨same, sameTokens⟩ := call_of_error answer
      rw [same, sameTokens]
      exact reads
  | checkpoint => exact reads
  | rewind checkpoint => exact reads.rewind checkpoint

theorem Reads.run (reads : Reads grammar start tokens session) (calls : List Call) :
    Reads grammar start (session.survivors tokens calls) (session.run calls) := by
  induction calls generalizing tokens session with
  | nil => exact reads
  | cons call calls ih => exact ih (reads.call call)

/-- No rewind goes below the first `length` tokens. -/
def StaysAbove (length : Nat) (calls : List Call) : Prop :=
  ∀ checkpoint, .rewind checkpoint ∈ calls → length ≤ checkpoint

theorem surviving_keeps {first : List String} {call : Call} (kept : first <+: tokens)
    (above : StaysAbove first.length [call]) : first <+: session.surviving tokens call := by
  cases call with
  | advance token =>
    unfold surviving
    dsimp only
    split
    · exact kept.trans (List.prefix_append ..)
    · exact kept
  | checkpoint => exact kept
  | rewind checkpoint =>
    have behind : first.length ≤ checkpoint := above checkpoint (List.mem_singleton_self _)
    rw [surviving, List.prefix_take_iff]
    exact ⟨kept, behind⟩

theorem survivors_keep {first : List String} {calls : List Call} (kept : first <+: tokens)
    (above : StaysAbove first.length calls) : first <+: session.survivors tokens calls := by
  induction calls generalizing tokens session with
  | nil => exact kept
  | cons call calls ih =>
    have aboveFirst : StaysAbove first.length [call] := by
      intro checkpoint member
      exact above checkpoint (List.mem_cons.mpr (.inl (List.mem_singleton.mp member)))
    have aboveRest : StaysAbove first.length calls := fun checkpoint member =>
      above checkpoint (List.mem_cons_of_mem _ member)
    exact ih (surviving_keeps kept aboveFirst) aboveRest

/-- A checkpoint brings the session back as long as no call in between has gone below it. -/
theorem Reads.rewind_run (reads : Reads grammar start tokens session) {calls : List Call}
    (above : StaysAbove session.checkpoint calls) : (session.run calls).rewind session.checkpoint = session := by
  have width : session.checkpoint = tokens.length := reads.consumed_eq
  rw [width] at above ⊢
  have kept : tokens <+: session.survivors tokens calls := survivors_keep List.prefix_rfl above
  have back := (reads.run calls).rewind tokens.length
  rw [← List.prefix_iff_eq_take.mp kept] at back
  exact back.unique reads

/-- A session is the list of the tokens that survive. After any calls it is the fresh session advanced over
them: an accepted token is put at their end, a refused one changes nothing, and a rewind keeps as many of them
as had been consumed when its checkpoint was taken, in whatever session that was. -/
theorem run_eq_advanceAll_survivors {initial : Session grammar} (opened : ofStart grammar start = .ok initial)
    (calls : List Call) :
    let session := initial.run calls
    let tokens := initial.survivors [] calls
    initial.advanceAll tokens = .ok session ∧
    session.consumed = tokens.length ∧
    (∀ token after, session.advance token = .ok after → initial.run (calls ++ [.advance token]) = after ∧
      initial.survivors [] (calls ++ [.advance token]) = tokens ++ [token]) ∧
    (∀ token rejection, session.advance token = .error rejection →
      initial.run (calls ++ [.advance token]) = session ∧
      initial.survivors [] (calls ++ [.advance token]) = tokens) ∧
    (∀ (foreign : Grammar) (other : Session foreign),
      initial.survivors [] (calls ++ [.rewind other.checkpoint]) =
        tokens.take (min other.consumed session.consumed)) ∧
    ∀ between, StaysAbove session.checkpoint between →
      (initial.run (calls ++ between)).rewind session.checkpoint = session := by
  intro session tokens
  have reads : Reads grammar start tokens session := (Reads.fresh opened).run calls
  refine ⟨?_, reads.consumed_eq, fun token after advanced => ?_, fun token rejection refused => ?_,
    fun foreign other => ?_, fun between above => ?_⟩
  · obtain ⟨other, openedOther, advanced⟩ := reads.exists_initial
    cases opened.symm.trans openedOther
    exact advanced
  · rw [run_concat, survivors_concat]
    exact call_of_ok advanced
  · rw [run_concat, survivors_concat]
    exact call_of_error refused
  · have width : (initial.run calls).consumed = (initial.survivors [] calls).length := reads.consumed_eq
    rw [survivors_concat, width, surviving, checkpoint, ← List.take_eq_take_min]
  · rw [run_append]
    exact reads.rewind_run above

/-- A refused token, a rewind below a later checkpoint, and then one to that checkpoint, which lies ahead. -/
def detour : List Call :=
  [.advance "x", .checkpoint, .advance "x", .advance ";", .checkpoint, .rewind 1, .rewind 2, .advance ";"]

theorem survivors_detour : ∃ initial, ofStart pairs pairing.head = .ok initial ∧
    initial.survivors [] detour = ["x", ";"] ∧ initial.advanceAll ["x", ";"] = .ok (initial.run detour) := by
  obtain ⟨initial, opened⟩ := exists_pairs
  obtain ⟨first, illegal, separatorLegal, _⟩ := legal_pairs opened
  have width : initial.consumed = 0 := (Reads.fresh opened).consumed_eq
  have back : ((initial.following "x").following ";").rewind 1 = initial.following "x" := by
    simpa [checkpoint, width] using rewind_checkpoint_following (initial.following "x") ";"
  have ahead : (initial.following "x").rewind 2 = initial.following "x" := rewind_of_le (by simp [width])
  have survives : initial.survivors [] detour = ["x", ";"] := by
    simp [detour, survivors, surviving, call, advance_of_legal first, advance_of_not_legal illegal,
      advance_of_legal separatorLegal, back, ahead]
  obtain ⟨advanced, -⟩ := run_eq_advanceAll_survivors opened detour
  rw [survives] at advanced
  exact ⟨initial, opened, survives, advanced⟩

end Viable.Session
