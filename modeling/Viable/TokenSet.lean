/-! Finite sets of token texts, listed in increasing order of code points. -/

namespace Viable

/-- Each token of the set occurs once, and the tokens are sorted, so a set has one listing. -/
structure TokenSet where
  toList : List String
  sorted : toList.Pairwise (· < ·)
deriving DecidableEq

namespace TokenSet

/-- Puts a text in its place among sorted texts, unless it is there already. -/
def place (text : String) : List String → List String
  | [] => [text]
  | other :: rest =>
    if text < other then text :: other :: rest
    else if text = other then other :: rest
    else other :: place text rest

theorem mem_place (text other : String) (texts : List String) :
    other ∈ place text texts ↔ other = text ∨ other ∈ texts := by
  induction texts with
  | nil => simp [place]
  | cons first rest ih =>
    unfold place
    split
    · simp
    · split
      case isTrue same => simp [same]
      case isFalse => simp [ih, or_left_comm]

theorem sorted_place (text : String) (texts : List String) (sorted : texts.Pairwise (· < ·)) :
    (place text texts).Pairwise (· < ·) := by
  induction texts with
  | nil => simp [place]
  | cons first rest ih =>
    obtain ⟨least, restSorted⟩ := List.pairwise_cons.mp sorted
    unfold place
    split
    case isTrue below =>
      refine List.pairwise_cons.mpr ⟨fun other member => ?_, sorted⟩
      rcases List.mem_cons.mp member with same | later
      · exact same ▸ below
      · exact String.lt_trans below (least other later)
    case isFalse above =>
      split
      case isTrue => exact sorted
      case isFalse different =>
        refine List.pairwise_cons.mpr ⟨fun other member => ?_, ih restSorted⟩
        rcases (mem_place text other rest).mp member with same | later
        · subst same
          rcases String.le_total first other with le | ge
          · exact Std.lt_of_le_of_ne le (Ne.symm different)
          · exact absurd (String.le_antisymm ge (String.not_lt.mp above)) different
        · exact least other later

def empty : TokenSet := ⟨[], .nil⟩

def insert (text : String) (texts : TokenSet) : TokenSet :=
  ⟨place text texts.toList, sorted_place text texts.toList texts.sorted⟩

/-- The set of the texts in a list, whatever their order and however often they occur. -/
def ofList (texts : List String) : TokenSet := texts.foldr insert empty

theorem mem_ofList (text : String) (texts : List String) : text ∈ (ofList texts).toList ↔ text ∈ texts := by
  induction texts with
  | nil => simp [ofList, empty]
  | cons first rest ih => exact (mem_place ..).trans (by rw [List.mem_cons]; exact or_congr_right ih)

/-- The tokens between backticks, one space apart. -/
def display (texts : TokenSet) : String := " ".intercalate (texts.toList.map fun text => s!"`{text}`")

end TokenSet

end Viable
