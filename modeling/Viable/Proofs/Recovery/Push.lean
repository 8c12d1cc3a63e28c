import Viable.Proofs.Session.Recognition
import Viable.Recovery

/-! What becomes of one pushed token. Three questions of legality decide it: whether the token is legal,
whether the separator is, and whether the token is legal behind the separator. -/

namespace Viable

variable {grammar : Grammar} {session : Session grammar} {token separator : String}

namespace Session

theorem push_of_legal (legal : token ∈ session.legal.toList) (separator : Option String) :
    session.push separator token = .accepted (session.following token) := by
  simp only [push, advance_of_legal legal]

theorem push_none (illegal : token ∉ session.legal.toList) :
    session.push none token = .refused (.noRecovery ⟨token, session.consumed, session.legal⟩) session := by
  simp only [push, advance_of_not_legal illegal]

theorem push_of_separator_not_legal (illegal : token ∉ session.legal.toList)
    (separatorIllegal : separator ∉ session.legal.toList) :
    session.push (some separator) token = .refused
      (.separatorRejected ⟨token, session.consumed, session.legal⟩ separator
        ⟨separator, session.consumed, session.legal⟩) session := by
  simp only [push, advance_of_not_legal illegal, advance_of_not_legal separatorIllegal]

theorem push_of_legal_behind (illegal : token ∉ session.legal.toList)
    (separatorLegal : separator ∈ session.legal.toList)
    (legalBehind : token ∈ (session.following separator).legal.toList) :
    session.push (some separator) token =
      .repaired separator ((session.following separator).following token) := by
  simp only [push, advance_of_not_legal illegal, advance_of_legal separatorLegal, advance_of_legal legalBehind]

/-- The separator was consumed for nothing, and the rewind takes it back. -/
theorem push_of_not_legal_behind (illegal : token ∉ session.legal.toList)
    (separatorLegal : separator ∈ session.legal.toList)
    (illegalBehind : token ∉ (session.following separator).legal.toList) :
    session.push (some separator) token = .refused
      (.retryRejected ⟨token, session.consumed, session.legal⟩ separator
        ⟨token, session.consumed + 1, (session.following separator).legal⟩) session := by
  simp only [push, advance_of_not_legal illegal, advance_of_legal separatorLegal,
    advance_of_not_legal illegalBehind, rewind_checkpoint_following, consumed_following]

/-- What is inserted in front of a token at a session: the separator, when only the separator is legal. -/
def inserted (session : Session grammar) (separator : Option String) (token : String) : List String :=
  if token ∈ session.legal.toList then [] else separator.toList.filter (· ∈ session.legal.toList)

end Session

/-- What a push at a session adds to the consumed tokens. A refused token adds nothing. -/
def Outcome.added (outcome : Outcome grammar) (session : Session grammar) (separator : Option String)
    (token : String) : List String :=
  match outcome.answer with
  | .ok _ => session.inserted separator token ++ [token]
  | .error _ => []

namespace Session

/-- A push is a plain advance over what it adds. -/
theorem advanceAll_added (session : Session grammar) (separator : Option String) (token : String) :
    session.advanceAll ((session.push separator token).added session separator token) =
      .ok (session.push separator token).session := by
  by_cases legal : token ∈ session.legal.toList
  · simp only [push_of_legal legal, Outcome.added, Outcome.answer, Outcome.session, inserted, if_pos legal,
      List.nil_append, advanceAll_singleton, advance_of_legal legal]
  cases separator with
  | none => simp only [push_none legal, Outcome.added, Outcome.answer, Outcome.session, advanceAll_nil]
  | some separator =>
    by_cases separatorLegal : separator ∈ session.legal.toList
    · by_cases legalBehind : token ∈ (session.following separator).legal.toList
      · have repaired : inserted session (some separator) token = [separator] := by
          simp [inserted, legal, separatorLegal]
        have first : session.advanceAll [separator] = .ok (session.following separator) := by
          rw [advanceAll_singleton, advance_of_legal separatorLegal]
        simp only [push_of_legal_behind legal separatorLegal legalBehind, Outcome.added, Outcome.answer,
          Outcome.session, repaired]
        rw [advanceAll_append_of_ok first, advanceAll_singleton, advance_of_legal legalBehind]
      · simp only [push_of_not_legal_behind legal separatorLegal legalBehind, Outcome.added, Outcome.answer,
          Outcome.session, advanceAll_nil]
    · simp only [push_of_separator_not_legal legal separatorLegal, Outcome.added, Outcome.answer,
        Outcome.session, advanceAll_nil]

/-- A session that a fresh one is brought to by any calls, in any order. -/
inductive Reachable (grammar : Grammar) (start : Name) : Session grammar → Prop where
  | fresh {initial : Session grammar} (opened : ofStart grammar start = .ok initial) :
      Reachable grammar start initial
  | advance {session after : Session grammar} (reachable : Reachable grammar start session) {token : String}
      (advanced : session.advance token = .ok after) : Reachable grammar start after
  | rewind {session : Session grammar} (reachable : Reachable grammar start session) (checkpoint : Checkpoint) :
      Reachable grammar start (session.rewind checkpoint)
  | push {session : Session grammar} (reachable : Reachable grammar start session) (separator : Option String)
      (token : String) : Reachable grammar start (session.push separator token).session

variable {start : Name}

/-- Whatever has been called, the session is as if it had been advanced over some tokens and nothing else. -/
theorem Reachable.exists_reads (reachable : Reachable grammar start session) :
    ∃ tokens, Reads grammar start tokens session := by
  induction reachable with
  | fresh opened => exact ⟨[], .fresh opened⟩
  | advance _ advanced ih =>
    obtain ⟨tokens, reads⟩ := ih
    exact ⟨_, reads.next advanced⟩
  | rewind _ checkpoint ih =>
    obtain ⟨tokens, reads⟩ := ih
    exact ⟨_, reads.rewind checkpoint⟩
  | push _ separator token ih =>
    obtain ⟨tokens, reads⟩ := ih
    exact ⟨_, reads.advanceAll (advanceAll_added _ separator token)⟩

/-- A push is decided by legality alone. It consumes the token, or the separator and the token, or else it
is refused, for a reason that tells how far it came, and leaves the session as it was. -/
theorem push_decided (reachable : Reachable grammar start session) :
    (∃ tokens, Reads grammar start tokens session) ∧
      ∀ tokens, Reads grammar start tokens session → ∀ token,
      (token ∈ session.legal.toList → ∃ after, Reads grammar start (tokens ++ [token]) after ∧
        ∀ separator, session.push separator token = .accepted after) ∧
      (token ∉ session.legal.toList →
        session.push none token = .refused (.noRecovery ⟨token, tokens.length, session.legal⟩) session ∧
        ∀ separator,
          (separator ∉ session.legal.toList → session.push (some separator) token =
            .refused (.separatorRejected ⟨token, tokens.length, session.legal⟩ separator
              ⟨separator, tokens.length, session.legal⟩) session) ∧
          (separator ∈ session.legal.toList → separator ≠ token ∧
            ∃ between, Reads grammar start (tokens ++ [separator]) between ∧
              (token ∈ between.legal.toList → ∃ after, Reads grammar start (tokens ++ [separator, token]) after ∧
                session.push (some separator) token = .repaired separator after) ∧
              (token ∉ between.legal.toList → session.push (some separator) token =
                .refused (.retryRejected ⟨token, tokens.length, session.legal⟩ separator
                  ⟨token, tokens.length + 1, between.legal⟩) session))) := by
  refine ⟨reachable.exists_reads, fun tokens reads token =>
    ⟨fun legal => ?_, fun illegal => ⟨?_, fun separator => ⟨?_, ?_⟩⟩⟩⟩
  · exact ⟨_, reads.following legal, push_of_legal legal⟩
  · rw [push_none illegal, reads.consumed_eq]
  · intro separatorIllegal
    rw [push_of_separator_not_legal illegal separatorIllegal, reads.consumed_eq]
  · intro separatorLegal
    have between := reads.following separatorLegal
    have different : separator ≠ token := fun same => illegal (same ▸ separatorLegal)
    refine ⟨different, _, between, fun legalBehind => ?_, fun illegalBehind => ?_⟩
    · have after := between.following legalBehind
      rw [List.append_assoc] at after
      exact ⟨_, after, push_of_legal_behind illegal separatorLegal legalBehind⟩
    · rw [push_of_not_legal_behind illegal separatorLegal illegalBehind, reads.consumed_eq]

/-- Two statements and the separator between them. -/
def pairing : Production := ⟨.given "pair", [.terminal "x", .terminal ";", .terminal "x"]⟩

def pairs : Grammar := .ofComplete [pairing] (by decide)

theorem derives_pairing : Derives pairs.productions.toList [.nonterminal pairing.head] ["x", ";", "x"] :=
  Derives.node (List.mem_singleton_self pairing) (.spell ["x", ";", "x"]) .nil

/-- Nothing but a separator follows the first statement. -/
theorem eq_of_continues_pairing {token : String}
    (continues : Continues pairs.productions.toList pairing.head ["x"] token) : token = ";" := by
  obtain ⟨production, member, _, opens⟩ := (opens_iff_rewritesTo.mpr continues).exists_production
  cases List.mem_singleton.mp member
  cases opens with
  | terminal _ opens =>
    cases opens
    rfl

theorem exists_pairs : ∃ initial, ofStart pairs pairing.head = .ok initial :=
  exists_initial ⟨pairing, List.mem_singleton_self _, rfl⟩

theorem legal_pairs {initial : Session pairs} (opened : ofStart pairs pairing.head = .ok initial) :
    "x" ∈ initial.legal.toList ∧ "x" ∉ (initial.following "x").legal.toList ∧
      ";" ∈ (initial.following "x").legal.toList ∧
      "x" ∈ ((initial.following "x").following ";").legal.toList := by
  have fresh : Reads pairs pairing.head [] initial := .fresh opened
  have first := fresh.mem_legal_iff.mpr (.of_derives derives_pairing)
  have readsFirst := fresh.following first
  have separator := readsFirst.mem_legal_iff.mpr (.of_derives derives_pairing)
  have second := (readsFirst.following separator).mem_legal_iff.mpr (.of_derives derives_pairing)
  refine ⟨first, fun legal => ?_, separator, second⟩
  have impossible := eq_of_continues_pairing (readsFirst.mem_legal_iff.mp legal)
  contradiction

theorem push_repairs_pair : ∃ session after, Reachable pairs pairing.head session ∧
    Reads pairs pairing.head ["x"] session ∧ session.push (some ";") "x" = .repaired ";" after ∧
    Reads pairs pairing.head ["x", ";", "x"] after := by
  obtain ⟨initial, opened⟩ := exists_pairs
  obtain ⟨first, illegal, separatorLegal, _⟩ := legal_pairs opened
  have reads := (Reads.fresh opened).following first
  have reachable := (Reachable.fresh opened).advance (advance_of_legal first)
  obtain ⟨_, refused⟩ := ((push_decided reachable).2 _ reads "x").2 illegal
  obtain ⟨_, between, readsBetween, retried, _⟩ := (refused ";").2 separatorLegal
  have legalBehind := readsBetween.mem_legal_iff.mpr (.of_derives derives_pairing)
  obtain ⟨after, readsAfter, repaired⟩ := retried legalBehind
  exact ⟨_, after, reachable, reads, repaired, readsAfter⟩

end Session

end Viable
