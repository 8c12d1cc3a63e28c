import Viable.Grammar.Defect

/-! Building a grammar from alternations, repetitions and unions, under given or fresh names. -/

namespace Viable

/-- The number of the next fresh name, and the productions added so far. -/
structure Builder where
  next : Nat
  productions : List Production

namespace Builder

def empty : Builder := ⟨1, []⟩

def fresh : StateM Builder Name :=
  modifyGet fun builder => (.fresh builder.next, { builder with next := builder.next + 1 })

def headOrFresh : Option Name → StateM Builder Name
  | some head => pure head
  | none => fresh

/-- One production per body, all with the same head. -/
def choice (bodies : List Body) (head : Option Name) : StateM Builder (List Production) := do
  let head ← headOrFresh head
  return bodies.map (⟨head, ·⟩)

/-- One `base` and then any number of iterations, by left recursion. -/
def repetition (base iteration : Body) (head : Option Name) : StateM Builder (List Production) := do
  let head ← headOrFresh head
  return [⟨head, base⟩, ⟨head, .nonterminal head :: iteration⟩]

/-- Both production lists, and a way from `head` to every head among them, each once. -/
def union (first second : List Production) (head : Option Name) : StateM Builder (List Production) := do
  let head ← headOrFresh head
  return first ++ second ++ (headsOf (first ++ second)).map fun name => ⟨head, [.nonterminal name]⟩

/-- Makes productions part of the grammar; the combinators only compute them. -/
def add (productions : List Production) : StateM Builder Unit :=
  modify fun builder => { builder with productions := builder.productions ++ productions }

def build (builder : Builder) : Except (List DanglingReference) Grammar :=
  Grammar.ofProductions builder.productions

end Builder

end Viable
