/-! Texts measured in the bytes of UTF-8. -/

namespace Viable.Text

def byteWidth : List Char → Nat
  | [] => 0
  | char :: rest => char.utf8Size + byteWidth rest

/-- The characters that fit whole into some bytes at the beginning of a text. -/
def takeBytes : Nat → List Char → List Char
  | _, [] => []
  | bytes, char :: rest =>
    if char.utf8Size ≤ bytes then char :: takeBytes (bytes - char.utf8Size) rest else []

end Viable.Text
