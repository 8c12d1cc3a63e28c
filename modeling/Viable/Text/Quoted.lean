import Viable.Text.GraphemeExtend
import Viable.Text.Ranges
import Viable.Text.Unprintable

/-! Texts between double quotes, with an escape for every character that would not show as itself. -/

namespace Viable.Text

/-- Whether a character shows as itself, whatever stands before it. -/
def standsAlone (char : Char) : Bool :=
  !within unprintableRanges char && !within graphemeExtendRanges char

/-- The quote, the backslash, NUL and three blanks have short escapes. All others are written by
their code points in lower case hexadecimal digits. -/
def escape (char : Char) : List Char :=
  match char with
  | '"' => ['\\', '"']
  | '\\' => ['\\', '\\']
  | '\x00' => ['\\', '0']
  | '\t' => ['\\', 't']
  | '\r' => ['\\', 'r']
  | '\n' => ['\\', 'n']
  | _ =>
    if standsAlone char then [char]
    else ['\\', 'u', '\x7b'] ++ Nat.toDigits 16 char.toNat ++ ['\x7d']

/-- The escaped text between double quotes. -/
def quoted (text : String) : String :=
  String.ofList ('"' :: text.toList.flatMap escape ++ ['"'])

end Viable.Text
