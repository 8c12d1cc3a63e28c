/-! Character classes given by runs of code points. -/

namespace Viable.Text

/-- Whether a character lies in one of the runs, each given by its first and last code point. -/
def within (ranges : List (Nat × Nat)) (char : Char) : Bool :=
  ranges.any fun (first, last) => first ≤ char.toNat && char.toNat ≤ last

end Viable.Text
