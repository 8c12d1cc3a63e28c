import Viable.Chance.KeyStream
import Viable.Chance.Source
import Viable.Chart.Column
import Viable.Chart.Item
import Viable.CommandLine.Arguments
import Viable.CommandLine.Command
import Viable.CommandLine.Log
import Viable.CommandLine.Run
import Viable.Distinct
import Viable.Grammar.Basic
import Viable.Grammar.Builder
import Viable.Grammar.Defect
import Viable.Grammar.Derivation
import Viable.Grammar.Height
import Viable.Grammar.Reachable
import Viable.Grammar.Symbol
import Viable.Location
import Viable.Lua.Grammar
import Viable.Lua.Lexicon
import Viable.Main
import Viable.Proofs.Grammar.Opening
import Viable.Proofs.Grammar.Rewriting
import Viable.Recovery
import Viable.Sampling
import Viable.Saturation
import Viable.Session
import Viable.Text.Blank
import Viable.Text.Bytes
import Viable.Text.GraphemeExtend
import Viable.Text.Quoted
import Viable.Text.Ranges
import Viable.Text.Unprintable
import Viable.Token
import Viable.TokenSet
import Viable.Proofs.Chart.Deduction
import Viable.Proofs.Chart.Validity
import Viable.Proofs.Saturation
import Viable.Proofs.Chart.Closure
import Viable.Proofs.Session.Advance
import Viable.Proofs.Session.Recognition
import Viable.Proofs.Recovery.Push
import Viable.Proofs.Recovery.Correction
import Viable.Proofs.Session.History
import Viable.Proofs.Grammar.Yield
import Viable.Proofs.Recovery.Feeding
import Viable.Proofs.Lua.Statements
import Viable.Proofs.Lua.Separation
import Viable.Proofs.Sampling.Choice
import Viable.Proofs.Sampling.Growth
import Viable.Proofs.Sampling.Sentences
import Viable.Proofs.Token.Leading
import Viable.Proofs.Token.Layout
import Viable.Proofs.Lua.Sentences
import Viable.Proofs.CommandLine.Sampled
import Viable.Proofs.Grammar.Reachable
import Viable.Proofs.Grammar.Fruitful
import Viable.Proofs.Session.Completion
import Viable.Proofs.Lua.DeadEnds
import Viable.Proofs.Session.Interaction
import Viable.Proofs.Token.Spans
import Viable.Proofs.Lua.Nesting
import Viable.Proofs.Recovery.Unrefused
import Viable.Proofs.CommandLine.Verdict
import Viable.Proofs.Grammar.Combinators
import Viable.Proofs.Grammar.Hygiene
import Viable.Proofs.Lua.Identifiers
import Viable.Proofs.Sampling.Levels
import Viable.Proofs.Token.Munch
import Viable.Proofs.Token.Cutting
import Viable.Proofs.CommandLine.Echo
import Viable.Proofs.Token.Rendering
import Viable.Proofs.Session.Combinators
import Viable.Proofs.Recovery.Policies
import Viable.Proofs.Recovery.Conservative
import Viable.Proofs.Grammar.Defect
import Viable.Proofs.Worklist
import Viable.Proofs.Sampling.Coverage
import Viable.Proofs.Session.Columns
import Viable.Proofs.Grammar.Index
import Viable.Proofs.Session.Nullable
import Viable.Proofs.Sampling.Estimates
import Viable.Proofs.Session.Closing
