import Viable.Proofs.Recovery.Feeding

/-! Recovery is conservative: it does not begin before a token comes that is not legal as it is. Up to there a feeding
goes one way, whatever the separator and the policy, and the whole way for what completes a sentence. -/

namespace Viable.Session

variable {grammar : Grammar} {start : Name} {session : Session grammar}

/-- Every list of tokens has a longest beginning that a plain advance gets through. -/
theorem exists_legal_beginning (session : Session grammar) (tokens : List Token) :
    ∃ first rest between, tokens = first ++ rest ∧ session.advanceAll (first.map (·.text)) = .ok between ∧
      ∀ token ∈ rest.head?, token.text ∉ between.legal.toList := by
  induction tokens generalizing session with
  | nil => exact ⟨[], [], session, rfl, rfl, nofun⟩
  | cons token rest ih =>
    by_cases legal : token.text ∈ session.legal.toList
    · obtain ⟨first, last, between, rfl, advanced, stuck⟩ := ih (session.following token.text)
      exact ⟨token :: first, last, between, rfl, advanceAll_cons_eq_ok_iff.mpr ⟨legal, advanced⟩, stuck⟩
    · refine ⟨[], token :: rest, session, rfl, rfl, fun other head => ?_⟩
      cases head
      exact legal

/-- Feedings of the same tokens differ in their separators and policies only from the first token on that is not legal
as it is. Up to there they have the same steps, all of them plain, and bring the session to the same state. If there
is no such token, and so if the tokens complete those consumed to a sentence, all feedings are the same: they insert
nothing and refuse nothing. -/
theorem feed_conservative (reachable : Reachable grammar start session) (tokens : List Token) :
    (∃ first rest between steps, tokens = first ++ rest ∧
      session.advanceAll (first.map (·.text)) = .ok between ∧
      (∀ token ∈ rest.head?, token.text ∉ between.legal.toList) ∧
      steps.map (·.token) = first ∧ AllAccepted steps ∧
      ∀ separator policy, session.feed separator policy tokens =
        let back := feedFrom separator policy first.length between rest
        ⟨steps ++ back.steps, back.halted, back.final⟩) ∧
    (∃ consumed, Reads grammar start consumed session) ∧
    ((∃ final, session.advanceAll (tokens.map (·.text)) = .ok final) ∨
      (∃ consumed, Reads grammar start consumed session ∧
        Derives grammar.productions.toList [.nonterminal start] (consumed ++ tokens.map (·.text))) →
      ∃ transcript, transcript.steps.map (·.token) = tokens ∧ AllAccepted transcript.steps ∧
        transcript.halted = false ∧ ∀ separator policy, session.feed separator policy tokens = transcript) := by
  refine ⟨?_, reachable.exists_reads, fun plain => ?_⟩
  · obtain ⟨first, rest, between, rfl, advanced, stuck⟩ := session.exists_legal_beginning tokens
    obtain ⟨steps, order, accepted, fed⟩ := feedFrom_append_of_advanceAll 0 advanced
    rw [Nat.zero_add] at fed
    exact ⟨first, rest, between, steps, rfl, advanced, stuck, order, accepted,
      fun separator policy => fed separator policy rest⟩
  · have through : ∃ final, session.advanceAll (tokens.map (·.text)) = .ok final := by
      obtain legal | ⟨consumed, reads, derives⟩ := plain
      · exact legal
      · obtain ⟨final, advanced, _⟩ := reads.advanceAll_of_derives derives
        exact ⟨final, advanced⟩
    obtain ⟨final, advanced⟩ := through
    obtain ⟨steps, order, accepted, fed⟩ := feedFrom_append_of_advanceAll 0 advanced
    refine ⟨⟨steps, false, final⟩, order, accepted, rfl, fun separator policy => ?_⟩
    simpa only [feed, List.append_nil, feedFrom] using fed separator policy []

/-- The separator of a pair that is there already is not inserted once more. -/
theorem feed_completes_pair : ∃ session, Reads pairs pairing.head ["x"] session ∧
    ∃ transcript : Transcript pairs, AllAccepted transcript.steps ∧
      ∀ separator policy, session.feed separator policy [⟨";", 1, 2⟩, ⟨"x", 2, 3⟩] = transcript := by
  obtain ⟨initial, opened⟩ := exists_pairs
  obtain ⟨first, _⟩ := legal_pairs opened
  have reads := (Reads.fresh opened).following first
  have reachable := (Reachable.fresh opened).advance (advance_of_legal first)
  obtain ⟨_, _, through⟩ := feed_conservative reachable [⟨";", 1, 2⟩, ⟨"x", 2, 3⟩]
  obtain ⟨transcript, _, accepted, _, same⟩ := through (.inr ⟨_, reads, derives_pairing⟩)
  exact ⟨_, reads, transcript, accepted, same⟩

end Viable.Session
