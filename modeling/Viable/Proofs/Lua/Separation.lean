import Viable.Proofs.Lua.Statements
import Viable.Proofs.Recovery.Feeding

/-! Recovery on the Lua grammar. A missing separator in front of a statement word is put in, and nothing else
is, since such a word is not legal directly behind a statement and always legal behind its separator. -/

namespace Viable.Lua

theorem exists_initial : ∃ initial, Session.ofStart grammar start = .ok initial :=
  Session.exists_initial ⟨⟨start, [phrase "stats"]⟩, show _ ∈ productions by decide +kernel, rfl⟩

/-- The statement words are illegal directly behind complete statements without their last separator. -/
theorem statementWord_not_legal {tokens : List String} {session : Session grammar}
    (reads : Session.Reads grammar start tokens session)
    (derives : Derives productions [phrase "stats"] (tokens ++ [separator])) {text : String}
    (begins : text ∈ statementWords) : text ∉ session.legal.toList := by
  intro legal
  have continues := reads.mem_legal_iff.mp legal
  exact not_opens_statementWord derives begins (opens_iff_rewritesTo.mpr continues)

/-- Statements without their last separator and a chunk that begins with a statement word: feeding them in a
row inserts that separator between them and changes nothing else, and the session is then the one that has
consumed the separator with the rest. -/
theorem feed_separates {before after : List String} {text : String}
    (statements : RewritesTo productions [phrase "stats"] (spell (before ++ [separator])))
    (chunk : RewritesTo productions [.nonterminal start] (spell after))
    (first : after.head? = some text) (begins : text ∈ statementWords) :
    ∃ initial, Session.ofStart grammar start = .ok initial ∧
      ∀ (policy : FailurePolicy) (tokens : List Token), tokens.map (·.text) = before ++ after →
        let transcript := initial.feed (some separator) policy tokens
        transcript.steps.map (·.token) = tokens ∧ transcript.halted = false ∧ transcript.refusals = 0 ∧
        (∃ front repaired back, transcript.steps = front ++ repaired :: back ∧
          front.length = before.length ∧ AllAccepted front ∧ AllAccepted back ∧
          ∃ session, repaired.outcome = .repaired separator session) ∧
        transcript.final.consumed = before.length + 1 + after.length ∧
        transcript.isAccepting ∧
        initial.advanceAll (before ++ [separator] ++ after) = .ok transcript.final ∧
        ∀ (recovery : Option String) (otherPolicy : FailurePolicy) (explicit : List Token),
          explicit.map (·.text) = before ++ [separator] ++ after →
            (initial.feed recovery otherPolicy explicit).final = transcript.final := by
  have derives := derives_iff_rewritesTo.mpr statements
  have sentence := derives_chunk_append derives (derives_iff_rewritesTo.mpr chunk)
  obtain ⟨initial, opened⟩ := exists_initial
  have fresh := Session.Reads.fresh opened
  obtain ⟨final, advanced, reads, accepting⟩ : ∃ final,
      initial.advanceAll (before ++ [separator] ++ after) = .ok final ∧
      Session.Reads grammar start (before ++ [separator] ++ after) final ∧ final.isAccepting :=
    fresh.advanceAll_of_derives sentence
  obtain ⟨rest, rfl⟩ : ∃ rest, after = text :: rest := List.head?_eq_some_iff.mp first
  rw [List.append_assoc, List.singleton_append] at advanced reads
  obtain ⟨between, advancedBefore, behind⟩ := Session.advanceAll_append_eq_ok_iff.mp advanced
  have illegal := statementWord_not_legal (fresh.advanceAll advancedBefore) derives begins
  refine ⟨initial, opened, fun policy tokens texts => ?_⟩
  obtain ⟨firstTokens, others, rfl, rfl, textsAfter⟩ := List.map_eq_append_iff.mp texts
  obtain ⟨token, restTokens, rfl, rfl, rfl⟩ := List.map_eq_cons_iff.mp textsAfter
  obtain ⟨front, back, session, order, plain, orderBack, plainBack, fed⟩ :=
    Session.feedFrom_of_advanceAll_separator policy 0 advancedBefore illegal behind
  have width : front.length = firstTokens.length := by rw [← order, List.length_map]
  intro transcript
  have known : transcript = ⟨front ++ ⟨0 + firstTokens.length, token, .repaired separator session⟩ :: back, false,
    final⟩ := fed
  clear_value transcript
  subst known
  refine ⟨by simp [order, orderBack], rfl, ?_, ⟨front, _, back, rfl, by simp [width], plain, plainBack, _, rfl⟩,
    ?_, accepting, by simpa using advanced, fun recovery otherPolicy explicit same => ?_⟩
  · rw [Transcript.refusals, List.countP_append, List.countP_cons, countP_isRefused_of_allAccepted plain,
      countP_isRefused_of_allAccepted plainBack]
    rfl
  · rw [reads.consumed_eq]
    simp
    omega
  · rw [← List.singleton_append, ← List.append_assoc, ← same] at advanced
    obtain ⟨steps, _, _, fedExplicit⟩ := Session.feedFrom_of_advanceAll recovery otherPolicy 0 advanced
    rw [Session.feed, fedExplicit]

/-- A call ends with a bracket, as the parameters of a function do. -/
theorem derives_call : Derives productions [phrase "stats"] ["f", "(", ")", ";"] := by
  have letter : Derives productions [phrase "letter"] ["f"] :=
    .of_body (show ⟨.given "letter", [word "f"]⟩ ∈ productions by decide +kernel) (.spell ["f"])
  have name : Derives productions [phrase "Name"] ["f"] :=
    .of_body (show ⟨.given "Name", [phrase "letter"]⟩ ∈ productions by decide +kernel) letter
  have place : Derives productions [phrase "var"] ["f"] :=
    .of_body (show ⟨.given "var", [phrase "Name"]⟩ ∈ productions by decide +kernel) name
  have called : Derives productions [phrase "prefixexp"] ["f"] :=
    .of_body (show ⟨.given "prefixexp", [phrase "var"]⟩ ∈ productions by decide +kernel) place
  have arguments : Derives productions [phrase "args"] ["(", ")"] :=
    .of_body (show ⟨.given "args", [word "(", word ")"]⟩ ∈ productions by decide +kernel) (.spell ["(", ")"])
  have call : Derives productions [phrase "functioncall"] ["f", "(", ")"] :=
    .of_body (show ⟨.given "functioncall", [phrase "prefixexp", phrase "args"]⟩ ∈ productions by decide +kernel)
      (called.append arguments)
  have statement : Derives productions [phrase "stat"] ["f", "(", ")"] :=
    .of_body (show ⟨.given "stat", [phrase "functioncall"]⟩ ∈ productions by decide +kernel) call
  exact .of_body (show ⟨.given "stats", [phrase "stat", word separator]⟩ ∈ productions by decide +kernel)
    (statement.append (.spell [separator]))

theorem derives_return : Derives productions [.nonterminal start] ["return", ";"] := by
  have last : Derives productions [phrase "laststat"] ["return"] :=
    .of_body (show ⟨.given "laststat", [word "return"]⟩ ∈ productions by decide +kernel) (.spell ["return"])
  exact .of_body (show ⟨start, [phrase "laststat", word separator]⟩ ∈ productions by decide +kernel)
    (last.append (.spell [separator]))

theorem feed_call_return : ∃ initial, Session.ofStart grammar start = .ok initial ∧
    let transcript := initial.feed (some separator) .halt
      [⟨"f", 0, 1⟩, ⟨"(", 1, 2⟩, ⟨")", 2, 3⟩, ⟨"return", 4, 10⟩, ⟨";", 10, 11⟩]
    transcript.refusals = 0 ∧ transcript.final.consumed = 6 ∧ transcript.isAccepting ∧
      initial.advanceAll ["f", "(", ")", ";", "return", ";"] = .ok transcript.final := by
  have begins : "return" ∈ statementWords := by decide
  have statements : RewritesTo productions [phrase "stats"] (spell (["f", "(", ")"] ++ [separator])) :=
    derives_call.rewritesTo
  obtain ⟨initial, opened, fed⟩ := feed_separates statements derives_return.rewritesTo rfl begins
  obtain ⟨_, _, refusals, _, consumed, accepting, advanced, _⟩ :=
    fed .halt [⟨"f", 0, 1⟩, ⟨"(", 1, 2⟩, ⟨")", 2, 3⟩, ⟨"return", 4, 10⟩, ⟨";", 10, 11⟩] rfl
  exact ⟨initial, opened, refusals, consumed, accepting, advanced⟩

end Viable.Lua
