import Viable.Chance.Source
import Viable.Grammar.Basic
import Viable.Grammar.Derivation
import Viable.Location

/-! Random derivations. Down to a depth every alternative that can be finished is equally likely; below
it only those of least height are, so every derivation ends. -/

namespace Viable

inductive SampleError where
  /-- The start symbol heads no production. -/
  | undefinedNonterminal (name : Name)
  /-- No derivation from the start symbol ends. -/
  | unproductive (name : Name)
deriving DecidableEq

namespace SampleError

def location (_ : SampleError) : Location := .grammar

def message : SampleError → String
  | undefinedNonterminal name => s!"No definition for nonterminal `{name.display}`"
  | unproductive name => s!"Nonterminal `{name.display}` never derives a finite sentence"

end SampleError

/-- A production of the grammar for a name, and the least height of a derivation that begins with it. -/
structure Candidate (grammar : Grammar) (name : Name) where
  production : Production
  member : production ∈ grammar.productions.toList
  heads : production.head = name
  height : Nat

namespace Grammar

/-- The tree, or the trees, that stand for a body. -/
abbrev Tree (grammar : Grammar) (body : Body) := Derivation grammar.productions.toList body

/-- The alternatives of a name that can be finished, in order. -/
def candidates (grammar : Grammar) (name : Name) : List (Candidate grammar name) :=
  (grammar.alternatives name).filterMap fun position =>
    if inside : position < grammar.productions.size then
      let production := grammar.productions[position]
      if heads : production.head = name then
        (production.height? grammar.heights).map
          (⟨production, Array.mem_toList_iff.mpr (Array.getElem_mem inside), heads, ·⟩)
      else none
    else none

/-- The candidates at a depth: all of them above `maxDepth`, those of least height from there on. -/
def candidatesAt (grammar : Grammar) (maxDepth depth : Nat) (name : Name) : List (Candidate grammar name) :=
  let candidates := grammar.candidates name
  if depth < maxDepth then candidates
  else
    let lowest := ((candidates.map (·.height)).min?).getD 0
    candidates.filter (·.height = lowest)

end Grammar

namespace Sampling

open Chance

variable {σ : Type} [Source σ] {grammar : Grammar}

/-- Grows a body from left to right, each nonterminal by `grow`. -/
def growBody (grow : (name : Name) → OptionT (StateM σ) (grammar.Tree [.nonterminal name])) :
    (body : Body) → OptionT (StateM σ) (grammar.Tree body)
  | [] => pure .nil
  | .terminal text :: body => do
    let rest ← growBody grow body
    return .terminal text rest
  | .nonterminal name :: body => do
    let tree ← grow name
    let rest ← growBody grow body
    return tree.append rest

/-- Grows a nonterminal at some depth. Each level down brings the trees nearer to `maxDepth` or, from
there on, lowers their least heights, so a number of levels is enough. -/
def grow (maxDepth : Nat) : Nat → Nat → (name : Name) → OptionT (StateM σ) (grammar.Tree [.nonterminal name])
  | 0, _, _ => failure
  | levels + 1, depth, name => do
    let candidate ← choose (grammar.candidatesAt maxDepth depth name)
    let children ← growBody (grow maxDepth levels (depth + 1)) candidate.production.body
    return .node name candidate.production candidate.member candidate.heads children .nil

end Sampling

/-- A random derivation from `start`. Growing fails at once, or not at all. -/
def Grammar.sample {σ : Type} [Chance.Source σ] (grammar : Grammar) (start : Name) (maxDepth : Nat) :
    StateM σ (Except SampleError (grammar.Tree [.nonterminal start])) := do
  if grammar.contains start then
    match ← (Sampling.grow maxDepth (maxDepth + grammar.heights.length) 0 start).run with
    | some tree => return .ok tree
    | none => return .error (.unproductive start)
  else return .error (.undefinedNonterminal start)

end Viable
