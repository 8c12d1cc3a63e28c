import Viable.Session
import Viable.Token

/-! Feeding tokens to a session, with a separator put in front of a token that is refused without it. -/

namespace Viable

/-- Why a token was dropped. Each case begins with the rejection of the token as it came. -/
inductive Refusal where
  /-- There was no separator to try. -/
  | noRecovery (rejection : Rejection)
  /-- The separator was refused as well. -/
  | separatorRejected (rejection : Rejection) (separator : String) (recovery : Rejection)
  /-- The separator was accepted, and the token refused again behind it. -/
  | retryRejected (rejection : Rejection) (separator : String) (retry : Rejection)
deriving DecidableEq

namespace Refusal

def rejection : Refusal → Rejection
  | noRecovery rejection => rejection
  | separatorRejected rejection _ _ => rejection
  | retryRejected rejection _ _ => rejection

def message : Refusal → String
  | noRecovery rejection => s!"{rejection.message}; recovery is disabled"
  | separatorRejected rejection separator recovery =>
    s!"{rejection.message}; inserting `{separator}` did not help: {recovery.message}"
  | retryRejected rejection separator retry =>
    s!"{rejection.message}; still refused after inserting `{separator}`: {retry.message}"

end Refusal

variable {grammar : Grammar}

/-- What became of one token, and the session that is left behind it. -/
inductive Outcome (grammar : Grammar) where
  | accepted (after : Session grammar)
  | repaired (separator : String) (after : Session grammar)
  | refused (refusal : Refusal) (after : Session grammar)

namespace Outcome

def session : Outcome grammar → Session grammar
  | accepted after => after
  | repaired _ after => after
  | refused _ after => after

/-- The tokens that are legal behind the token, or why it was dropped. -/
def answer : Outcome grammar → Except Refusal TokenSet
  | accepted after => .ok after.legal
  | repaired _ after => .ok after.legal
  | refused refusal _ => .error refusal

def isRefused : Outcome grammar → Bool
  | refused _ _ => true
  | _ => false

end Outcome

/-- A refused token gets one more try behind the separator, if there is one. When that fails too, the
separator is taken back. -/
def Session.push (session : Session grammar) (separator : Option String) (token : String) : Outcome grammar :=
  match session.advance token, separator with
  | .ok after, _ => .accepted after
  | .error rejection, none => .refused (.noRecovery rejection) session
  | .error rejection, some separator =>
    let checkpoint := session.checkpoint
    match session.advance separator with
    | .error recovery => .refused (.separatorRejected rejection separator recovery) session
    | .ok between =>
      match between.advance token with
      | .ok after => .repaired separator after
      | .error retry => .refused (.retryRejected rejection separator retry) (between.rewind checkpoint)

/-- Whether a refused token ends the feeding or is dropped. -/
inductive FailurePolicy where
  | halt
  | skip
deriving DecidableEq

/-- A token, its number in the input, and what became of it. -/
structure Step (grammar : Grammar) where
  index : Nat
  token : Token
  outcome : Outcome grammar

namespace Step

def location (step : Step grammar) : Location := .token step.index step.token.start step.token.stop

def isRefused (step : Step grammar) : Bool := step.outcome.isRefused

end Step

structure Transcript (grammar : Grammar) where
  steps : List (Step grammar)
  halted : Bool
  final : Session grammar

namespace Transcript

def refusals (transcript : Transcript grammar) : Nat := transcript.steps.countP (·.isRefused)

def isAccepting (transcript : Transcript grammar) : Bool := transcript.final.isAccepting

end Transcript

namespace Session

/-- Pushes tokens in order, the first of them under the given number. -/
def feedFrom (separator : Option String) (policy : FailurePolicy) :
    Nat → Session grammar → List Token → Transcript grammar
  | _, session, [] => ⟨[], false, session⟩
  | index, session, token :: rest =>
    let outcome := session.push separator token.text
    let step := ⟨index, token, outcome⟩
    if outcome.isRefused && policy = .halt then ⟨[step], true, outcome.session⟩
    else
      let transcript := feedFrom separator policy (index + 1) outcome.session rest
      { transcript with steps := step :: transcript.steps }

def feed (session : Session grammar) (separator : Option String) (policy : FailurePolicy)
    (tokens : List Token) : Transcript grammar :=
  feedFrom separator policy 0 session tokens

end Session

end Viable
