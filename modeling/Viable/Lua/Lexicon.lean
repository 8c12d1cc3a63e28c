import Viable.Token

/-! The words of a simplified Lua: keywords, operators, and single characters for all else. -/

namespace Viable.Lua

def keywords : List String :=
  ["do", "end", "while", "repeat", "until", "if", "then", "elseif", "else", "for", "in",
   "local", "function", "return", "break", "nil", "false", "true", "and", "or", "not"]

/-- The operators of more than one character. -/
def operators : List String := ["...", "<=", ">=", "==", "~=", ".."]

/-- The token that ends every statement. -/
def separator : String := ";"

def lexicon : Lexicon := .ofLists keywords operators

end Viable.Lua
