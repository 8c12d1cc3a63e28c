import Viable.Proofs.CommandLine.Verdict
import Viable.Proofs.Sampling.Sentences

/-! What is printed for a sample is accepted when it is driven. -/

namespace Viable.CommandLine

variable {grammar : Grammar} {start : Name}

/-- From a start with a derivation as many sentences are printed as are asked for. -/
theorem runSample_of_tree (tree : grammar.Tree [.nonterminal start]) (depth amount : Nat) (source : Chance.KeyStream) :
    let report := runSample grammar start depth amount source
    report.succeeded ∧ report.output.length = amount ∧
      ∀ line ∈ report.output, ∃ sampled : grammar.Tree [.nonterminal start], line = " ".intercalate sampled.tokens := by
  induction amount generalizing source with
  | zero => simp [runSample]
  | succ amount ih =>
    obtain ⟨sampled, rest, drawn⟩ := Grammar.exists_sample tree depth source
    obtain ⟨succeeds, count, others⟩ := ih rest
    simp only [runSample, drawn, List.length_cons, List.forall_mem_cons]
    exact ⟨succeeds, congrArg (· + 1) count, ⟨sampled, rfl⟩, others⟩

/-- A line that is cut into certain tokens, which are accepted one by one from a name of the Lua grammar, whatever
the recovery and the policy, so that a drive succeeds on it. -/
structure Drivable (name : String) (line : String) (tokens : List String) : Prop where
  tokenized : (Lua.lexicon.tokenize line).map (·.text) = tokens
  fed : ∃ initial, Session.ofStart Lua.grammar (.given name) = .ok initial ∧ ∀ separator policy,
    let transcript := initial.feed separator policy (Lua.lexicon.tokenize line)
    transcript.steps.map (·.token) = Lua.lexicon.tokenize line ∧ AllAccepted transcript.steps ∧
      transcript.refusals = 0 ∧ transcript.halted = false ∧ transcript.isAccepting
  driven : ∀ input policy recovery verbose read entropy, readInput read input = .ok line →
    (Invocation.run ⟨.drive input policy recovery, some name, verbose⟩ read entropy).succeeded

theorem drivable_of_tree {name : String} (tree : Lua.grammar.Tree [.nonterminal (.given name)]) :
    Drivable name (" ".intercalate tree.tokens) tree.tokens := by
  have derives : Derives Lua.productions [.nonterminal (.given name)] tree.tokens := ⟨tree, rfl⟩
  have tokenized := Lua.map_text_tokenize_of_derives derives
  have sentence : Derives Lua.productions [.nonterminal (.given name)]
      ((Lua.lexicon.tokenize (" ".intercalate tree.tokens)).map (·.text)) := tokenized.symm ▸ derives
  obtain ⟨initial, _, opened, _⟩ := Session.exists_accepting tree
  refine ⟨tokenized, ⟨initial, opened, fun separator policy => ?_⟩, ?_⟩
  · obtain ⟨order, accepted, runs, accepting⟩ := Session.feed_of_derives opened sentence separator policy
    exact ⟨order, accepted, countP_isRefused_of_allAccepted accepted, runs, accepting⟩
  · intro input policy recovery verbose read entropy provided
    exact (run_drive_succeeded_iff provided recovery (some name) verbose entropy).mpr
      (passes_of_derives sentence policy recovery)

/-- Each name that the Lua grammar was given can be sampled, and what is printed for it is drivable from it: the
printed line has the tokens of the sample, none of them is refused or needs a separator in front of it, and
together they are accepted. -/
theorem drivable_sampled {name : String} (named : Lua.grammar.contains (.given name)) :
    (∀ {σ : Type} [Chance.Source σ] (source : σ) (depth : Nat), ∃ tree rest,
      (Lua.grammar.sample (.given name) depth).run source = (.ok tree, rest) ∧
        Drivable name (" ".intercalate tree.tokens) tree.tokens) ∧
    ∀ amount seed depth verbose read entropy,
      let report := Invocation.run ⟨.sample amount seed depth, some name, verbose⟩ read entropy
      report.succeeded ∧ report.output.length = amount ∧ ∀ line ∈ report.output,
        ∃ tree : Lua.grammar.Tree [.nonterminal (.given name)],
          line = " ".intercalate tree.tokens ∧ Drivable name line tree.tokens := by
  obtain ⟨tree⟩ := Lua.exists_tree named
  constructor
  · intro σ _ source depth
    obtain ⟨sampled, rest, drawn⟩ := Grammar.exists_sample tree depth source
    exact ⟨sampled, rest, drawn, drivable_of_tree sampled⟩
  · intro amount seed depth verbose read entropy
    obtain ⟨succeeds, count, lines⟩ := runSample_of_tree tree depth amount (.ofSeed (seed.getD entropy).toUInt64)
    refine ⟨succeeds, count, fun line printed => ?_⟩
    obtain ⟨sampled, rfl⟩ := lines line printed
    exact ⟨sampled, rfl, drivable_of_tree sampled⟩

/-- A block may be empty, and then so is the line. -/
theorem drivable_block : ∃ tree rest,
    (Lua.grammar.sample (.given "block") 3).run (⟨[0x80000000], 0⟩ : Chance.Listed) = (.ok tree, rest) ∧
    (Invocation.run ⟨.drive (.text (" ".intercalate tree.tokens)) .halt false, some "block", false⟩
      (fun _ => .error .notFound) 0).succeeded := by
  have named : Lua.grammar.contains (.given "block") := by decide +kernel
  obtain ⟨tree, rest, drawn, drivable⟩ := (drivable_sampled named).1 (⟨[0x80000000], 0⟩ : Chance.Listed) 3
  exact ⟨tree, rest, drawn, drivable.driven _ _ _ _ _ _ rfl⟩

end Viable.CommandLine
