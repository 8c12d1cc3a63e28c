import Viable.Text.Blank
import Viable.Text.Bytes
import Viable.Text.Quoted

/-! Tokens of a source text: the longest literals of a lexicon, and single characters elsewhere. -/

namespace Viable

open Text

/-- A piece of the source, with the bytes that it covers. -/
structure Token where
  text : String
  start : Nat
  stop : Nat
deriving DecidableEq

def Token.display (token : Token) : String := s!"{quoted token.text} {token.start}..{token.stop}"

/-- The texts that are one token wherever they begin. Neither their order nor repetitions matter, and an
empty literal is no token. -/
structure Lexicon where
  literals : List (List Char)

namespace Lexicon

/-- A keyword and an operator are told apart by nothing but their texts. -/
def ofLists (keywords operators : List String) : Lexicon :=
  ⟨(keywords ++ operators).map String.toList⟩

/-- The longest literal that a text starts with; empty if there is none. -/
def longest (lexicon : Lexicon) (source : List Char) : List Char :=
  lexicon.literals.foldl (fun best literal =>
    if best.length < literal.length && literal.isPrefixOf source then literal else best) []

/-- The token at the beginning of a text: the longest literal there, or else one character. -/
def leading (lexicon : Lexicon) (first : Char) (rest : List Char) : List Char :=
  match lexicon.longest (first :: rest) with
  | [] => [first]
  | literal => literal

theorem leading_ne_nil (lexicon : Lexicon) (first : Char) (rest : List Char) :
    lexicon.leading first rest ≠ [] := by
  unfold leading
  split
  case h_1 => simp
  case h_2 nonempty => exact nonempty

/-- What remains behind the leading token is shorter than what the token was taken from. -/
theorem length_drop_leading_lt (lexicon : Lexicon) {source : List Char} {first : Char} {rest : List Char}
    (remaining : source.dropWhile isBlank = first :: rest) :
    ((first :: rest).drop (lexicon.leading first rest).length).length < source.length := by
  have nonempty := List.length_pos_iff.mpr (lexicon.leading_ne_nil first rest)
  have shorter := (List.dropWhile_suffix isBlank (l := source)).length_le
  rw [remaining, List.length_cons] at shorter
  rw [List.length_drop, List.length_cons]
  omega

/-- The tokens of a text that begins at a byte of the source. -/
def tokensFrom (lexicon : Lexicon) (offset : Nat) (source : List Char) : List Token :=
  match remaining : source.dropWhile isBlank with
  | [] => []
  | first :: rest =>
    let text := lexicon.leading first rest
    let start := offset + byteWidth (source.takeWhile isBlank)
    let stop := start + byteWidth text
    have := lexicon.length_drop_leading_lt remaining
    ⟨String.ofList text, start, stop⟩ :: lexicon.tokensFrom stop ((first :: rest).drop text.length)
termination_by source.length
decreasing_by assumption

/-- Blanks at the end are dropped before anything is matched, blanks elsewhere before each token. -/
def tokenize (lexicon : Lexicon) (source : String) : List Token :=
  lexicon.tokensFrom 0 (trimEnd source.toList)

end Lexicon

end Viable
