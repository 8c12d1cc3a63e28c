import Viable.Proofs.CommandLine.Verdict
import Viable.Proofs.Token.Cutting

/-! A drive prints the source up to the end of each token, and what is printed there has the tokens that were driven
until then. -/

namespace Viable.CommandLine

open Text

variable {grammar : Grammar} {source : String} {policy : FailurePolicy}

/-- Every other line is the source up to the end of a token. -/
theorem getElem?_flatMap_stepLines (steps : List (Step grammar)) (index : Nat) :
    (steps.flatMap (stepLines source))[2 * index]? =
      steps[index]?.map fun step => String.ofList (takeBytes step.token.stop source.toList) := by
  induction steps generalizing index with
  | nil => rfl
  | cons step steps ih =>
    cases index with
    | zero => rfl
    | succ index => exact ih index

/-- The legal tokens come first, then two lines for each step, and the verdict comes last. -/
theorem output_run_drive {read : String → Except ReadError String} {input : Input} {name : Option String}
    (provided : readInput read input = .ok source)
    {initial : Session Lua.grammar}
    (opened : Session.ofStart Lua.grammar ((name.map Name.given).getD Lua.start) = .ok initial)
    (policy : FailurePolicy) (recovery verbose : Bool) (entropy : Nat) :
    let transcript := initial.feed (separator? recovery) policy (Lua.lexicon.tokenize source)
    (Invocation.run ⟨.drive input policy recovery, name, verbose⟩ read entropy).output =
      ("    " ++ initial.legal.display) :: (transcript.steps.flatMap (stepLines source) ++ [verdict transcript]) := by
  simp only [Invocation.run, provided, Report.logged, runDrive, opened]
  rfl

/-- What is printed for a step has the tokens of the steps so far. -/
theorem tokenize_echoed {lexicon : Lexicon} (closed : lexicon.Closed) {steps : List (Step grammar)}
    (driven : steps.map (·.token) <+: lexicon.tokenize source) {index : Nat} {step : Step grammar}
    (present : steps[index]? = some step) :
    lexicon.tokenize (String.ofList (takeBytes step.token.stop source.toList)) =
      (steps.take (index + 1)).map (·.token) := by
  obtain ⟨rest, tokens⟩ := driven
  obtain ⟨inside, same⟩ := List.getElem?_eq_some_iff.mp present
  have count : index < (steps.map (·.token)).length := by rwa [List.length_map]
  have here : (lexicon.tokenize source)[index]? = some step.token := by
    rw [← tokens, List.getElem?_append_left count, List.getElem?_map, present, Option.map_some]
  obtain ⟨front, back, rfl, size, _, first⟩ := Lexicon.exists_cut here
  rw [← size, utf8ByteSize_eq, String.toList_append, takeBytes_byteWidth_append, String.ofList_toList,
    first closed, ← tokens, List.take_append_of_le_length count, List.map_take]

/-- The source can be cut behind any of its tokens. From the cut on, the tokens are those of the second part, by as many
bytes further behind as the first part has; and if no literal ends with a blank, the tokens up to the cut are those of
the first part, so that the two parts have all tokens together. What a drive prints for a step is such a first part:
its tokens are the ones driven so far. -/
theorem tokenize_cut :
    (∀ (keywords operators : List String) (source : String) (index : Nat) (token : Token),
      let lexicon := Lexicon.ofLists keywords operators
      let tokens := lexicon.tokenize source
      tokens[index]? = some token → ∃ front back, source = front ++ back ∧ front.utf8ByteSize = token.stop ∧
        tokens.drop (index + 1) = (lexicon.tokenize back).map (·.shift token.stop) ∧
        ((∀ literal ∈ keywords ++ operators, ∀ last ∈ literal.toList.getLast?, isBlank last = false) →
          lexicon.tokenize front = tokens.take (index + 1) ∧
          tokens = lexicon.tokenize front ++ (lexicon.tokenize back).map (·.shift token.stop))) ∧
    ∀ (read : String → Except ReadError String) (input : Input) (source : String) (name : Option String)
      (initial : Session Lua.grammar), readInput read input = .ok source →
      Session.ofStart Lua.grammar ((name.map Name.given).getD Lua.start) = .ok initial →
      ∀ (policy : FailurePolicy) (recovery verbose : Bool) (entropy : Nat),
        let report := Invocation.run ⟨.drive input policy recovery, name, verbose⟩ read entropy
        let steps := (initial.feed (if recovery then some ";" else none) policy (Lua.lexicon.tokenize source)).steps
        ∀ index step, steps[index]? = some step → ∃ printed, report.output[2 * index + 1]? = some printed ∧
          Lua.lexicon.tokenize printed = (steps.take (index + 1)).map (·.token) := by
  constructor
  · intro keywords operators source index token lexicon tokens present
    obtain ⟨front, back, whole, size, behind, first⟩ := Lexicon.exists_cut present
    refine ⟨front, back, whole, size, behind, fun solid => ?_⟩
    have closed : lexicon.Closed := List.forall_mem_map.mpr solid
    refine ⟨first closed, ?_⟩
    rw [first closed, ← behind, List.take_append_drop]
  · intro read input source name initial provided opened policy recovery verbose entropy report steps index step present
    have found : (steps.flatMap (stepLines source))[2 * index]? =
        some (String.ofList (takeBytes step.token.stop source.toList)) := by
      rw [getElem?_flatMap_stepLines, present, Option.map_some]
    refine ⟨_, ?_, tokenize_echoed Lua.unbroken_lexicon.closed (feedFrom_tokens 0 initial _) present⟩
    rw [output_run_drive provided opened policy recovery verbose entropy, List.getElem?_cons_succ]
    exact (List.getElem?_append_left (List.getElem?_eq_some_iff.mp found).1).trans found

/-- A literal with a blank inside, and the first step on a Lua text. -/
theorem tokenize_cut_inside :
    (let lexicon := Lexicon.ofLists ["do", ""] ["a b", ".."]
      let tokens := lexicon.tokenize "do\u2003a b..é "
      tokens[1]? = some ⟨"a b", 5, 8⟩ ∧
      (∀ literal ∈ ["do", ""] ++ ["a b", ".."], ∀ last ∈ literal.toList.getLast?, isBlank last = false) ∧
      ∃ front back, "do\u2003a b..é " = front ++ back ∧ front.utf8ByteSize = 8 ∧
        lexicon.tokenize front = tokens.take 2) ∧
    ∃ initial step printed, Session.ofStart Lua.grammar Lua.start = .ok initial ∧
      (initial.feed (some ";") .halt (Lua.lexicon.tokenize "return ;")).steps[0]? = some step ∧
      Lua.lexicon.tokenize printed = [step.token] := by
  constructor
  · have present : ((Lexicon.ofLists ["do", ""] ["a b", ".."]).tokenize "do\u2003a b..é ")[1]? =
        some ⟨"a b", 5, 8⟩ := by decide +kernel
    have solid : ∀ literal ∈ ["do", ""] ++ ["a b", ".."], ∀ last ∈ literal.toList.getLast?, isBlank last = false := by
      have ends : isBlank 'o' = false ∧ isBlank 'b' = false ∧ isBlank '.' = false := by decide
      simpa using ends
    obtain ⟨front, back, whole, size, _, cut⟩ := tokenize_cut.1 ["do", ""] ["a b", ".."] _ 1 _ present
    exact ⟨present, solid, front, back, whole, size, (cut solid).1⟩
  · have texts : (Lua.lexicon.tokenize "return ;").map (·.text) = ["return", ";"] :=
      Lua.map_text_tokenize_of_derives Lua.derives_return
    have sentence : Derives Lua.productions [.nonterminal Lua.start]
        ((Lua.lexicon.tokenize "return ;").map (·.text)) := texts.symm ▸ Lua.derives_return
    obtain ⟨initial, opened⟩ := Lua.exists_initial
    obtain ⟨order, _⟩ := Session.feed_of_derives opened sentence (some ";") .halt
    have count := congrArg List.length (congrArg (List.map Token.text) order)
    rw [texts, List.length_map, List.length_map] at count
    have driven : 0 < (initial.feed (some ";") .halt (Lua.lexicon.tokenize "return ;")).steps.length := by
      rw [count]
      decide
    have present := List.getElem?_eq_getElem driven
    have provided : readInput (fun _ => .error .notFound) (.text "return ;") = .ok "return ;" := rfl
    obtain ⟨printed, _, tokens⟩ :=
      tokenize_cut.2 _ _ _ none initial provided opened .halt true false 0 0 _ present
    refine ⟨initial, _, printed, opened, present, ?_⟩
    rw [tokens, List.take_add_one, List.take_zero, List.nil_append]
    exact congrArg (fun step => step.toList.map (·.token)) present

end Viable.CommandLine
