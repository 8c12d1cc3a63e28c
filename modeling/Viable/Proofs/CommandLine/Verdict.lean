import Viable.CommandLine.Run
import Viable.Proofs.Lua.Sentences
import Viable.Proofs.Lua.Separation
import Viable.Proofs.Recovery.Unrefused
import Viable.Proofs.Token.Spans

/-! The verdict of a drive, and the beginnings of the source that it prints on the way. -/

namespace Viable

open Text

/-- The characters that fit into the bytes of a beginning of a text are this beginning. -/
theorem Text.takeBytes_byteWidth_append (front back : List Char) :
    takeBytes (byteWidth front) (front ++ back) = front := by
  induction front with
  | nil =>
    cases back with
    | nil => rfl
    | cons char back =>
      have wide := char.utf8Size_pos
      exact if_neg (by simp only [byteWidth]; omega)
  | cons char front ih =>
    rw [byteWidth, List.cons_append, takeBytes, if_pos (by omega), Nat.add_sub_cancel_left, ih]

/-- What fits into the bytes up to the end of a token is the source up to there. -/
theorem Lexicon.spans_takeBytes {lexicon : Lexicon} {source : String} {token : Token}
    (member : token ∈ lexicon.tokenize source) :
    Spans source 0 token.stop (String.ofList (takeBytes token.stop source.toList)) := by
  obtain ⟨pieces, trailing, _, whole, _, placed⟩ := lexicon.exists_pieces source
  rw [placed] at member
  obtain ⟨before, piece, after, rfl, _, _, stop⟩ := Piece.exists_of_mem_placed member
  have beginning : source.toList =
      [] ++ (Piece.layOut before ++ piece.gap ++ piece.text) ++ (Piece.layOut after ++ trailing) := by
    simp [whole, Piece.layOut_append]
  have spans := Spans.of_append beginning
  rw [Nat.zero_add] at stop
  rwa [beginning, List.nil_append, stop, takeBytes_byteWidth_append]

namespace CommandLine

variable {grammar : Grammar} {start : Name} {source : String} {policy : FailurePolicy}

/-- The separator that a drive puts in, if it is to recover. -/
def separator? (recovery : Bool) : Option String := if recovery then some Lua.separator else none

/-- The start has productions, no token is refused, and the session accepts in the end. -/
def Passes (grammar : Grammar) (start : Name) (source : String) (policy : FailurePolicy) (recovery : Bool) : Prop :=
  ∃ initial, Session.ofStart grammar start = .ok initial ∧
    let transcript := initial.feed (separator? recovery) policy (Lua.lexicon.tokenize source)
    transcript.refusals = 0 ∧ transcript.isAccepting

theorem runDrive_succeeded_iff (recovery : Bool) :
    (runDrive grammar start source policy recovery).succeeded ↔ Passes grammar start source policy recovery := by
  unfold runDrive Passes
  cases Session.ofStart grammar start with
  | error missing => simp [Report.failure]
  | ok initial => simp [separator?]

theorem run_drive_succeeded_iff {read : String → Except ReadError String} {input : Input}
    (provided : readInput read input = .ok source) (recovery : Bool) (name : Option String) (verbose : Bool)
    (entropy : Nat) : (Invocation.run ⟨.drive input policy recovery, name, verbose⟩ read entropy).succeeded ↔
      Passes Lua.grammar ((name.map Name.given).getD Lua.start) source policy recovery := by
  simp only [Invocation.run, provided, Report.logged]
  exact runDrive_succeeded_iff recovery

/-- Where nothing is refused, the policy makes no difference. -/
theorem Passes.of_policy {recovery : Bool} (passes : Passes grammar start source policy recovery)
    (other : FailurePolicy) : Passes grammar start source other recovery := by
  obtain ⟨initial, opened, refusals, accepting⟩ := passes
  obtain ⟨same, -⟩ := Session.feedFrom_of_noneRefused (countP_isRefused_eq_zero_iff.mp refusals) other
  refine ⟨initial, opened, ?_⟩
  rw [Session.feed, same]
  exact ⟨refusals, accepting⟩

theorem passes_of_derives
    (derives : Derives grammar.productions.toList [.nonterminal start] ((Lua.lexicon.tokenize source).map (·.text)))
    (policy : FailurePolicy) (recovery : Bool) : Passes grammar start source policy recovery := by
  obtain ⟨production, member, heads, _⟩ := derives.exists_production
  obtain ⟨initial, opened⟩ := Session.exists_initial ⟨production, member, heads⟩
  exact ⟨initial, opened, Session.feed_succeeds_of_derives opened derives (separator? recovery) policy⟩

/-- What passes is a sentence once some separators have been put in. -/
theorem Passes.exists_separated {recovery : Bool} (passes : Passes grammar start source policy recovery) :
    ∃ stream, Separated (separator? recovery) ((Lua.lexicon.tokenize source).map (·.text)) stream ∧
      Derives grammar.productions.toList [.nonterminal start] stream := by
  obtain ⟨initial, opened, refusals, accepting⟩ := passes
  exact Session.exists_separated_of_feed opened refusals accepting

/-- Without recovery nothing can be put in. -/
theorem passes_iff_derives : Passes grammar start source policy false ↔
    Derives grammar.productions.toList [.nonterminal start] ((Lua.lexicon.tokenize source).map (·.text)) := by
  constructor
  · rintro ⟨initial, opened, passes⟩
    exact (Session.feed_succeeds_iff_derives opened fun _ _ inserted given =>
      absurd given (Option.not_mem_none inserted)).mp passes
  · exact fun derives => passes_of_derives derives policy false

/-- A drive succeeds if and only if its start has productions, no token of the source is refused and the session
accepts in the end. The policy does not matter to that. Without recovery it means that the tokens are a sentence of
the start; with recovery every sentence succeeds, and whatever succeeds is a sentence once single separators have been
put in front of some tokens. What is printed for a step is the source up to the end of its token, and that is not in
the middle of a character. -/
theorem drive_succeeded_iff {read : String → Except ReadError String} {input : Input} {source : String}
    (provided : readInput read input = .ok source) (name : Option String) (verbose : Bool) (entropy : Nat) :
    let start := (name.map Name.given).getD Lua.start
    let tokens := Lua.lexicon.tokenize source
    let texts := tokens.map (·.text)
    let succeeded (policy : FailurePolicy) (recovery : Bool) : Bool :=
      (Invocation.run ⟨.drive input policy recovery, name, verbose⟩ read entropy).succeeded
    (∀ (policy : FailurePolicy) (recovery : Bool), succeeded policy recovery ↔
      (∃ production ∈ Lua.productions, production.head = start) ∧
      ∃ initial, Session.ofStart Lua.grammar start = .ok initial ∧
        let transcript := initial.feed (if recovery then some ";" else none) policy tokens
        transcript.steps.map (·.token) = tokens ∧ (∀ step ∈ transcript.steps, step.isRefused = false) ∧
          transcript.isAccepting) ∧
    (∀ recovery, succeeded .halt recovery = succeeded .skip recovery) ∧
    (∀ policy, succeeded policy false ↔ RewritesTo Lua.productions [.nonterminal start] (spell texts)) ∧
    (∀ policy, RewritesTo Lua.productions [.nonterminal start] (spell texts) → succeeded policy true) ∧
    (∀ policy, succeeded policy true → ∃ stream, Separated (some ";") texts stream ∧
      RewritesTo Lua.productions [.nonterminal start] (spell stream)) ∧
    ∀ (policy : FailurePolicy) (recovery : Bool) initial, Session.ofStart Lua.grammar start = .ok initial →
      ∀ step ∈ (initial.feed (if recovery then some ";" else none) policy tokens).steps,
        ∃ printed, (stepLines source step).head? = some printed ∧ Spans source 0 step.token.stop printed := by
  intro start tokens texts succeeded
  have passing (policy : FailurePolicy) (recovery : Bool) :
      succeeded policy recovery ↔ Passes Lua.grammar start source policy recovery :=
    run_drive_succeeded_iff provided recovery name verbose entropy
  refine ⟨fun policy recovery => ?_, fun recovery => ?_, fun policy => ?_, fun policy sentence => ?_,
    fun policy success => ?_, fun policy recovery initial _ step member => ?_⟩
  · rw [passing]
    constructor
    · intro passes
      obtain ⟨initial, opened, refusals, accepting⟩ := passes
      have held := countP_isRefused_eq_zero_iff.mp refusals
      exact ⟨Grammar.contains_iff.mp (Session.contains_of_ofStart opened), initial, opened,
        (Session.feedFrom_of_noneRefused held policy).2, held, accepting⟩
    · intro passes
      obtain ⟨_, initial, opened, _, held, accepting⟩ := passes
      exact ⟨initial, opened, countP_isRefused_eq_zero_iff.mpr held, accepting⟩
  · rw [Bool.eq_iff_iff, passing, passing]
    exact ⟨fun passes => passes.of_policy .skip, fun passes => passes.of_policy .halt⟩
  · rw [passing, passes_iff_derives]
    exact derives_iff_rewritesTo
  · exact (passing policy true).mpr (passes_of_derives (derives_iff_rewritesTo.mpr sentence) policy true)
  · obtain ⟨stream, separated, derives⟩ := ((passing policy true).mp success).exists_separated
    exact ⟨stream, separated, derives.rewritesTo⟩
  · have fed := (feedFrom_tokens 0 initial tokens).subset (List.mem_map_of_mem member)
    exact ⟨_, rfl, Lexicon.spans_takeBytes fed⟩

theorem drive_return :
    readInput (fun _ => .error .notFound) (.text "return ;") = .ok "return ;" ∧ ∀ policy recovery,
      let invocation : Invocation := ⟨.drive (.text "return ;") policy recovery, none, false⟩
      (invocation.run (fun _ => .error .notFound) 0).succeeded := by
  have texts : (Lua.lexicon.tokenize "return ;").map (·.text) = ["return", ";"] :=
    Lua.map_text_tokenize_of_derives Lua.derives_return
  have provided : readInput (fun _ => .error .notFound) (.text "return ;") = .ok "return ;" := rfl
  obtain ⟨_, _, plain, recovered, _⟩ := drive_succeeded_iff provided none false 0
  have sentence : RewritesTo Lua.productions [.nonterminal Lua.start]
      (spell ((Lua.lexicon.tokenize "return ;").map (·.text))) := texts ▸ Lua.derives_return.rewritesTo
  refine ⟨provided, fun policy recovery => ?_⟩
  cases recovery with
  | false => exact (plain policy).mpr sentence
  | true => exact recovered policy sentence

end CommandLine

end Viable
