import Viable.Grammar.Builder
import Viable.Lua.Lexicon

/-! The grammar of a simplified Lua. Every statement ends with a separator, numbers and names are
assembled from single characters, and there are no string literals. -/

namespace Viable.Lua

open Builder

def start : Name := .given "chunk"

def word (text : String) : Symbol := .terminal text

def phrase (name : String) : Symbol := .nonterminal (.given name)

def words (texts : List String) : List Body := texts.map fun text => [word text]

/-- Adds the alternatives of a named nonterminal. -/
def define (name : String) (bodies : List Body) : StateM Builder Unit := do
  add (← choice bodies (some (.given name)))

/-- Adds a named nonterminal for one `base` and any number of iterations. -/
def defineList (name : String) (base iteration : Body) : StateM Builder Unit := do
  add (← repetition base iteration (some (.given name)))

def digits : List String := ["0", "1", "2", "3", "4", "5", "6", "7", "8", "9"]

def letters : List String :=
  ["a", "b", "c", "d", "e", "f", "g", "h", "i", "j", "k", "l", "m",
   "n", "o", "p", "q", "r", "s", "t", "u", "v", "w", "x", "y", "z",
   "A", "B", "C", "D", "E", "F", "G", "H", "I", "J", "K", "L", "M",
   "N", "O", "P", "Q", "R", "S", "T", "U", "V", "W", "X", "Y", "Z", "_"]

/-- Digits and letters, and the numbers and names made of them. -/
def lexical : StateM Builder Unit := do
  define "digit" (words digits)
  define "letter" (words letters)
  defineList "number" [phrase "digit"] [phrase "digit"]
  let following ← fresh
  add (← choice [[phrase "letter"], [phrase "digit"]] (some following))
  defineList "Name" [phrase "letter"] [.nonterminal following]

def expressions : StateM Builder Unit := do
  define "unop" (words ["#", "-", "not"])
  define "binop" (words
    ["+", "-", "*", "/", "^", "%", "..", "<", "<=", ">", ">=", "==", "~=", "and", "or"])
  define "exp" (words ["nil", "false", "true", "..."] ++
    [[phrase "number"],
     [phrase "exp", phrase "binop", phrase "exp"],
     [phrase "unop", phrase "exp"],
     [phrase "function"],
     [phrase "prefixexp"],
     [phrase "tableconstructor"]])
  define "prefixexp"
    [[phrase "var"],
     [phrase "functioncall"],
     [word "(", phrase "exp", word ")"]]
  define "var"
    [[phrase "Name"],
     [phrase "prefixexp", word "[", phrase "exp", word "]"],
     [phrase "prefixexp", word ".", phrase "Name"]]
  define "functioncall"
    [[phrase "prefixexp", phrase "args"],
     [phrase "prefixexp", word ":", phrase "Name", phrase "args"]]
  define "args"
    [[word "(", word ")"],
     [word "(", phrase "explist1", word ")"],
     [phrase "tableconstructor"]]
  defineList "explist1" [phrase "exp"] [word ",", phrase "exp"]
  defineList "namelist" [phrase "Name"] [word ",", phrase "Name"]
  defineList "varlist" [phrase "var"] [word ",", phrase "var"]

def tables : StateM Builder Unit := do
  define "tableconstructor"
    [[word "\x7b", word "\x7d"],
     [word "\x7b", phrase "fieldlist", word "\x7d"],
     [word "\x7b", phrase "fieldlist", phrase "fieldsep", word "\x7d"]]
  defineList "fieldlist" [phrase "field"] [phrase "fieldsep", phrase "field"]
  define "field"
    [[word "[", phrase "exp", word "]", word "=", phrase "exp"],
     [phrase "Name", word "=", phrase "exp"],
     [phrase "exp"]]
  define "fieldsep" (words [",", ";"])

def functions : StateM Builder Unit := do
  define "function" [[word "function", phrase "funcbody"]]
  define "funcbody"
    [[word "(", word ")", phrase "block", word "end"],
     [word "(", phrase "parlist1", word ")", phrase "block", word "end"]]
  define "parlist1"
    [[phrase "namelist"],
     [word "..."],
     [phrase "namelist", word ",", word "..."]]
  let path ← fresh
  add (← repetition [phrase "Name"] [word ".", phrase "Name"] (some path))
  define "funcname"
    [[.nonterminal path],
     [.nonterminal path, word ":", phrase "Name"]]

/-- Blocks may be empty, a whole chunk may not. -/
def statements : StateM Builder Unit := do
  let conditions ← fresh
  add (← repetition
    [word "if", phrase "exp", word "then", phrase "block"]
    [word "elseif", phrase "exp", word "then", phrase "block"] (some conditions))
  define "stat"
    [[phrase "varlist", word "=", phrase "explist1"],
     [phrase "functioncall"],
     [word "do", phrase "block", word "end"],
     [word "while", phrase "exp", word "do", phrase "block", word "end"],
     [word "repeat", phrase "block", word "until", phrase "exp"],
     [.nonterminal conditions, word "end"],
     [.nonterminal conditions, word "else", phrase "block", word "end"],
     [word "for", phrase "Name", word "=", phrase "exp", word ",", phrase "exp",
      word "do", phrase "block", word "end"],
     [word "for", phrase "Name", word "=", phrase "exp", word ",", phrase "exp", word ",", phrase "exp",
      word "do", phrase "block", word "end"],
     [word "for", phrase "namelist", word "in", phrase "explist1", word "do", phrase "block", word "end"],
     [word "function", phrase "funcname", phrase "funcbody"],
     [word "local", word "function", phrase "Name", phrase "funcbody"],
     [word "local", phrase "namelist"],
     [word "local", phrase "namelist", word "=", phrase "explist1"]]
  define "laststat"
    [[word "break"],
     [word "return"],
     [word "return", phrase "explist1"]]
  defineList "stats" [phrase "stat", word separator] [phrase "stat", word separator]
  define "block" [[phrase "chunk"], []]
  define "chunk"
    [[phrase "stats"],
     [phrase "stats", phrase "laststat", word separator],
     [phrase "laststat", word separator]]

def rules : StateM Builder Unit := do
  lexical
  expressions
  tables
  functions
  statements

def productions : List Production := (rules.run .empty).2.productions

def grammar : Grammar := .ofComplete productions (by decide +kernel)

end Viable.Lua
