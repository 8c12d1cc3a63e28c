/-! The words in which a context-free grammar is written, and how each of them is displayed. -/

namespace Viable

/-- A nonterminal is named by its author or numbered by a builder. The two kinds stay apart even
where they are displayed alike. -/
inductive Name where
  | given (text : String)
  | fresh (number : Nat)
deriving DecidableEq, Hashable

inductive Symbol where
  | terminal (text : String)
  | nonterminal (name : Name)
deriving DecidableEq

abbrev Body := List Symbol

structure Production where
  head : Name
  body : Body
deriving DecidableEq

namespace Name

def display : Name → String
  | given text => text
  | fresh number => s!"rule#{number}"

end Name

namespace Symbol

/-- Terminals stand between backticks, nonterminals stand bare. -/
def display : Symbol → String
  | terminal text => s!"`{text}`"
  | nonterminal name => name.display

def name? : Symbol → Option Name
  | terminal _ => none
  | nonterminal name => some name

def text? : Symbol → Option String
  | terminal text => some text
  | nonterminal _ => none

end Symbol

namespace Production

/-- The nonterminals that the body mentions, in order and with repetitions. -/
def references (production : Production) : List Name := production.body.filterMap Symbol.name?

/-- The terminals that the body mentions, in order and with repetitions. -/
def literals (production : Production) : List String := production.body.filterMap Symbol.text?

/-- An empty body leaves nothing behind the arrow and its space. -/
def display (production : Production) : String :=
  s!"{production.head.display} -> " ++ " ".intercalate (production.body.map Symbol.display)

end Production

end Viable
