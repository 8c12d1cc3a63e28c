import Mathlib.Data.List.Basic
import Viable.Proofs.Token.Layout

/-! Where the tokens stand in the source. A text is cut into pieces, blanks and then a token each, and nothing of
it gets lost: the offsets of the tokens are those of the bytes that they are made of, and between them there is
nothing but blanks. -/

namespace Viable

open Text

namespace Text

theorem byteWidth_append (first second : List Char) :
    byteWidth (first ++ second) = byteWidth first + byteWidth second := by
  induction first with
  | nil => simp [byteWidth]
  | cons char first ih => simp [byteWidth, ih, Nat.add_assoc]

theorem byteWidth_eq (text : List Char) : byteWidth text = (String.ofList text).utf8ByteSize := by
  induction text with
  | nil => rfl
  | cons char text ih => simp [byteWidth, ih, String.ofList_cons]

theorem byteWidth_pos {text : List Char} (something : text ≠ []) : 0 < byteWidth text := by
  obtain ⟨char, rest, rfl⟩ := List.exists_cons_of_ne_nil something
  have wide := char.utf8Size_pos
  simp only [byteWidth]
  omega

theorem isValid_byteWidth (front back : List Char) :
    (⟨byteWidth front⟩ : String.Pos.Raw).IsValid (String.ofList (front ++ back)) := by
  apply String.Pos.Raw.isValid_iff_exists_append.mpr
  refine ⟨String.ofList front, String.ofList back, String.ofList_append, ?_⟩
  rw [byteWidth_eq]
  rfl

theorem filter_of_blank {text : List Char} (blank : ∀ char ∈ text, isBlank char) : text.filter (!isBlank ·) = [] := by
  rw [List.filter_eq_nil_iff]
  exact fun char member => by simp [blank char member]

/-- A text between two others is made of the bytes from the end of the one to the beginning of the other. -/
theorem extract_toByteArray (front text back : String) :
    (front ++ text ++ back).toByteArray.extract front.utf8ByteSize (front.utf8ByteSize + text.utf8ByteSize) =
      text.toByteArray :=
  calc
    _ = (front.toByteArray ++ (text.toByteArray ++ back.toByteArray)).extract (front.toByteArray.size + 0)
          (front.toByteArray.size + text.utf8ByteSize) := by
      simp only [String.toByteArray_append, ByteArray.append_assoc]
      rfl
    _ = (text.toByteArray ++ back.toByteArray).extract 0 text.utf8ByteSize := ByteArray.extract_append_size_add
    _ = text.toByteArray := ByteArray.extract_append_eq_left rfl

theorem length_trimEnd_le (text : List Char) : (trimEnd text).length ≤ text.length := by
  have shorter := (List.dropWhile_suffix isBlank (l := text.reverse)).length_le
  rw [List.length_reverse] at shorter
  rwa [trimEnd, List.length_reverse]

/-- Nothing but blanks is trimmed from the end of a text. -/
theorem exists_trimEnd (text : List Char) :
    ∃ trailing, text = trimEnd text ++ trailing ∧ ∀ char ∈ trailing, isBlank char := by
  refine ⟨(text.reverse.takeWhile isBlank).reverse, ?_, fun char member => ?_⟩
  · rw [trimEnd, ← List.reverse_append, List.takeWhile_append_dropWhile, List.reverse_reverse]
  · exact List.mem_takeWhile_imp (List.mem_reverse.mp member)

theorem isBlank_of_dropWhile {text rest : List Char} {first : Char}
    (found : text.dropWhile isBlank = first :: rest) : isBlank first = false := by
  have solid := List.head?_dropWhile_not isBlank text
  rw [found] at solid
  exact solid

theorem isBlank_last_trimEnd {text : List Char} {last : Char} (found : (trimEnd text).getLast? = some last) :
    isBlank last = false := by
  rw [trimEnd, List.getLast?_reverse, List.head?_eq_some_iff] at found
  obtain ⟨rest, found⟩ := found
  exact isBlank_of_dropWhile found

/-- What is left at the end of a trimmed text is never blank throughout. -/
theorem dropWhile_ne_nil_of_suffix {text left : List Char} (ends : left <:+ trimEnd text) (something : left ≠ []) :
    left.dropWhile isBlank ≠ [] := by
  intro blank
  obtain ⟨front, same⟩ := ends
  have found := List.getLast?_eq_some_getLast something
  have last : (trimEnd text).getLast? = some (left.getLast something) := by
    rw [← same, List.getLast?_append, found, Option.some_or]
  have lastBlank := List.dropWhile_eq_nil_iff.mp blank _ (List.mem_of_getLast? found)
  rw [isBlank_last_trimEnd last] at lastBlank
  contradiction

end Text

/-- A text stands in the source between two bytes, neither of which is in the middle of a character. -/
structure Spans (source : String) (first last : Nat) (text : String) : Prop where
  ordered : first ≤ last
  inside : last ≤ source.utf8ByteSize
  valid_first : (⟨first⟩ : String.Pos.Raw).IsValid source
  valid_last : (⟨last⟩ : String.Pos.Raw).IsValid source
  bytes : source.toByteArray.extract first last = text.toByteArray

theorem Spans.of_append {source : String} {front text back : List Char} (same : source.toList = front ++ text ++ back) :
    Spans source (byteWidth front) (byteWidth (front ++ text)) (String.ofList text) := by
  obtain rfl : source = String.ofList (front ++ text ++ back) := by rw [← same, String.ofList_toList]
  refine ⟨?_, ?_, ?_, isValid_byteWidth (front ++ text) back, ?_⟩
  · rw [byteWidth_append]
    omega
  · rw [← byteWidth_eq, byteWidth_append (front ++ text)]
    omega
  · rw [List.append_assoc]
    exact isValid_byteWidth front (text ++ back)
  · simp only [byteWidth_eq, String.ofList_append, String.utf8ByteSize_append]
    exact extract_toByteArray (String.ofList front) (String.ofList text) (String.ofList back)

namespace Piece

variable {pieces : List Piece}

/-- Blanks, and then a text that does not begin with one. -/
structure Formed (piece : Piece) : Prop where
  blank : ∀ char ∈ piece.gap, isBlank char
  solid : ∃ first rest, piece.text = first :: rest ∧ isBlank first = false

theorem layOut_append (first second : List Piece) : layOut (first ++ second) = layOut first ++ layOut second :=
  List.flatMap_append

theorem placed_cons (front : List Char) (piece : Piece) (pieces : List Piece) :
    placed (byteWidth front) (piece :: pieces) =
      ⟨String.ofList piece.text, byteWidth (front ++ piece.gap), byteWidth (front ++ piece.gap ++ piece.text)⟩ ::
        placed (byteWidth (front ++ piece.gap ++ piece.text)) pieces := by
  simp only [placed, byteWidth_append]

theorem placed_append (offset : Nat) (first second : List Piece) :
    placed offset (first ++ second) = placed offset first ++ placed (offset + byteWidth (layOut first)) second := by
  induction first generalizing offset with
  | nil => rfl
  | cons piece first ih => simp [placed, ih, byteWidth_append, Nat.add_assoc]

theorem length_placed (offset : Nat) (pieces : List Piece) : (placed offset pieces).length = pieces.length := by
  rw [← List.length_map, map_text_placed, List.length_map]

/-- The token of a piece stands where the piece does, behind what is laid out before it. -/
theorem getElem?_placed (offset : Nat) (before : List Piece) (piece : Piece) (after : List Piece) :
    (placed offset (before ++ piece :: after))[before.length]? =
      some ⟨String.ofList piece.text, offset + byteWidth (layOut before ++ piece.gap),
        offset + byteWidth (layOut before ++ piece.gap ++ piece.text)⟩ := by
  rw [placed_append, List.getElem?_append_right (length_placed offset before).le, length_placed, Nat.sub_self]
  simp [placed, byteWidth_append, Nat.add_assoc]

/-- A placed token is a piece behind others. -/
theorem exists_of_mem_placed {offset : Nat} {token : Token} (member : token ∈ placed offset pieces) :
    ∃ before piece after, pieces = before ++ piece :: after ∧ token.text = String.ofList piece.text ∧
      token.start = offset + byteWidth (layOut before ++ piece.gap) ∧
      token.stop = offset + byteWidth (layOut before ++ piece.gap ++ piece.text) := by
  induction pieces generalizing offset with
  | nil => simp [placed] at member
  | cons piece pieces ih =>
    rcases List.mem_cons.mp member with rfl | later
    · refine ⟨[], piece, pieces, rfl, rfl, ?_, ?_⟩
      · simp
      · simp [byteWidth_append, Nat.add_assoc]
    · obtain ⟨before, other, after, rfl, text, start, stop⟩ := ih later
      refine ⟨piece :: before, other, after, rfl, text, ?_, ?_⟩
      · simp [start, byteWidth_append, Nat.add_assoc]
      · simp [stop, byteWidth_append, Nat.add_assoc]

theorem pairwise_placed (offset : Nat) (pieces : List Piece) :
    (placed offset pieces).Pairwise fun token later => token.stop ≤ later.start := by
  induction pieces generalizing offset with
  | nil => exact .nil
  | cons piece pieces ih =>
    refine .cons (fun later member => ?_) (ih _)
    obtain ⟨_, _, _, _, _, start, _⟩ := exists_of_mem_placed member
    rw [start]
    exact Nat.le_add_right ..

/-- Without the blanks, the texts of pieces that have none are all that there is. -/
theorem filter_layOut (formed : ∀ piece ∈ pieces, piece.Formed) (solid : ∀ piece ∈ pieces, Solid piece.text) :
    (layOut pieces).filter (!isBlank ·) = pieces.flatMap (·.text) := by
  induction pieces with
  | nil => rfl
  | cons piece pieces ih =>
    rw [List.forall_mem_cons] at formed solid
    have kept : piece.text.filter (!isBlank ·) = piece.text := by
      rw [List.filter_eq_self]
      exact fun char member => by simp [solid.1 char member]
    rw [layOut_cons, List.filter_append, List.filter_append, filter_of_blank formed.1.blank, kept, ih formed.2 solid.2]
    rfl

end Piece

/-- Put together, placed tokens without blanks are what is laid out without the blanks. -/
theorem Piece.join_placed {pieces : List Piece} (formed : ∀ piece ∈ pieces, piece.Formed)
    (solid : ∀ piece ∈ pieces, Solid piece.text) (offset : Nat) :
    String.join ((placed offset pieces).map (·.text)) = String.ofList ((layOut pieces).filter (!isBlank ·)) := by
  apply String.toList_injective
  calc
    _ = (pieces.map fun piece => String.ofList piece.text).flatMap String.toList := by
      rw [String.toList_join, map_text_placed]
    _ = pieces.flatMap (·.text) := by simp [List.flatMap_map]
    _ = (layOut pieces).filter (!isBlank ·) := (filter_layOut formed solid).symm
    _ = _ := String.toList_ofList.symm

/-- A placed token stands in a source that is laid out in the same way. -/
theorem spans_of_mem_placed {source : String} {trailing : List Char} {pieces : List Piece}
    (same : source.toList = Piece.layOut pieces ++ trailing) (formed : ∀ piece ∈ pieces, piece.Formed)
    {token : Token} (member : token ∈ Piece.placed 0 pieces) :
    token.start < token.stop ∧ Spans source token.start token.stop token.text ∧
      ∃ first ∈ token.text.toList.head?, isBlank first = false := by
  obtain ⟨before, piece, after, rfl, text, start, stop⟩ := Piece.exists_of_mem_placed member
  obtain ⟨first, rest, begins, solid⟩ := (formed piece (by simp)).solid
  rw [text, start, stop, Nat.zero_add, Nat.zero_add]
  refine ⟨?_, ?_, first, by simp [begins], solid⟩
  · have something : piece.text ≠ [] := begins ▸ List.cons_ne_nil first rest
    have wide := byteWidth_pos something
    rw [byteWidth_append (Piece.layOut before ++ piece.gap)]
    omega
  · have whole : source.toList =
        Piece.layOut before ++ piece.gap ++ piece.text ++ (Piece.layOut after ++ trailing) := by
      simp [same, Piece.layOut_append]
    exact .of_append whole

/-- The byte ranges in front of some tokens, between them and behind them, from an offset to the end. -/
def outside (size : Nat) : Nat → List Token → List (Nat × Nat)
  | offset, [] => [(offset, size)]
  | offset, token :: tokens => (offset, token.start) :: outside size token.stop tokens

/-- Outside of placed tokens there are the gaps of their pieces, and what comes behind all of them. -/
theorem spans_of_mem_outside {source : String} {front trailing : List Char} {pieces : List Piece}
    (same : source.toList = front ++ Piece.layOut pieces ++ trailing)
    (formed : ∀ piece ∈ pieces, piece.Formed) (behind : ∀ char ∈ trailing, isBlank char)
    {range : Nat × Nat}
    (member : range ∈ outside source.utf8ByteSize (byteWidth front) (Piece.placed (byteWidth front) pieces)) :
    ∃ blanks, (∀ char ∈ blanks.toList, isBlank char) ∧ Spans source range.1 range.2 blanks := by
  induction pieces generalizing front with
  | nil =>
    have whole : source.utf8ByteSize = byteWidth (front ++ trailing) := by
      rw [byteWidth_eq, ← String.ofList_toList (s := source), same, Piece.layOut_nil, List.append_nil]
    rw [Piece.placed, outside, List.mem_singleton, whole] at member
    subst member
    have last : source.toList = front ++ trailing ++ [] := by simpa using same
    exact ⟨String.ofList trailing, by simpa using behind, .of_append last⟩
  | cons piece pieces ih =>
    rw [List.forall_mem_cons] at formed
    rw [Piece.placed_cons, outside] at member
    rcases List.mem_cons.mp member with rfl | later
    · have gap : source.toList = front ++ piece.gap ++ (piece.text ++ Piece.layOut pieces ++ trailing) := by
        simpa using same
      exact ⟨String.ofList piece.gap, by simpa using formed.1.blank, .of_append gap⟩
    · exact ih (by simpa using same) formed.2 later

namespace Lexicon

variable {lexicon : Lexicon}

/-- The leading token is where the text begins. -/
theorem leading_isPrefix (lexicon : Lexicon) (first : Char) (rest : List Char) :
    lexicon.leading first rest <+: first :: rest := by
  rcases lexicon.leading_cases first rest with ⟨single, _⟩ | ⟨_, begins, _⟩
  · exact ⟨rest, by rw [single]; rfl⟩
  · exact begins

theorem exists_leading_eq_cons (lexicon : Lexicon) (first : Char) (rest : List Char) :
    ∃ tail, lexicon.leading first rest = first :: tail := by
  obtain ⟨head, tail, same⟩ := List.exists_cons_of_ne_nil (lexicon.leading_ne_nil first rest)
  have begins := lexicon.leading_isPrefix first rest
  rw [same] at begins
  obtain ⟨rfl, _⟩ := List.cons_prefix_cons.mp begins
  exact ⟨tail, same⟩

/-- Without blanks in the literals there are none in what leads a text. -/
theorem admits_leading (unbroken : lexicon.Unbroken) {first : Char} (solid : isBlank first = false)
    (rest : List Char) : lexicon.Admits (lexicon.leading first rest) := by
  rcases lexicon.leading_cases first rest with ⟨single, _⟩ | ⟨member, _⟩
  · rw [single]
    exact ⟨.inr rfl, List.cons_ne_nil _ _, List.forall_mem_singleton.mpr solid⟩
  · exact ⟨.inl member, lexicon.leading_ne_nil first rest, unbroken _ member⟩

/-- Rounds in which tokens are cut off a text, with the blanks in front of them, and what is left then. -/
inductive Cut (lexicon : Lexicon) : List Char → List Piece → List Char → Prop where
  | done (left : List Char) : Cut lexicon left [] left
  | round {source rest left : List Char} {first : Char} {pieces : List Piece}
      (found : source.dropWhile isBlank = first :: rest)
      (cut : Cut lexicon ((first :: rest).drop (lexicon.leading first rest).length) pieces left) :
      Cut lexicon source (⟨source.takeWhile isBlank, lexicon.leading first rest⟩ :: pieces) left

/-- One round of the tokenizer. -/
theorem tokensFrom_of_found {source rest : List Char} {first : Char}
    (found : source.dropWhile isBlank = first :: rest) (offset : Nat) :
    lexicon.tokensFrom offset source =
      let text := lexicon.leading first rest
      let start := offset + byteWidth (source.takeWhile isBlank)
      let stop := start + byteWidth text
      ⟨String.ofList text, start, stop⟩ :: lexicon.tokensFrom stop ((first :: rest).drop text.length) := by
  rw [tokensFrom]
  split
  case h_1 remaining => cases found.symm.trans remaining
  case h_2 head others remaining =>
    cases found.symm.trans remaining
    rfl

namespace Cut

variable {source left : List Char} {pieces : List Piece}

/-- Nothing gets lost. -/
theorem layOut_append (cut : lexicon.Cut source pieces left) : Piece.layOut pieces ++ left = source := by
  induction cut with
  | done left => rfl
  | @round source rest left first pieces found cut ih =>
    have whole := List.prefix_iff_eq_append.mp (lexicon.leading_isPrefix first rest)
    rw [Piece.layOut_cons, List.append_assoc, List.append_assoc, ih, whole, ← found, List.takeWhile_append_dropWhile]

/-- The tokens are the pieces, and what comes of the text that is left. -/
theorem tokensFrom_eq (cut : lexicon.Cut source pieces left) (front : List Char) :
    lexicon.tokensFrom (byteWidth front) source = Piece.placed (byteWidth front) pieces ++
      lexicon.tokensFrom (byteWidth (front ++ Piece.layOut pieces)) left := by
  induction cut generalizing front with
  | done left => simp [Piece.placed]
  | @round source rest left first pieces found cut ih =>
    rw [tokensFrom_of_found found, Piece.placed_cons, List.cons_append]
    simp only [← byteWidth_append, ih, Piece.layOut_cons, List.append_assoc]

theorem formed (cut : lexicon.Cut source pieces left) : ∀ piece ∈ pieces, piece.Formed := by
  induction cut with
  | done => exact fun _ absent => absurd absent List.not_mem_nil
  | @round source rest left first pieces found cut ih =>
    refine List.forall_mem_cons.mpr ⟨⟨fun char member => List.mem_takeWhile_imp member, ?_⟩, ih⟩
    obtain ⟨tail, same⟩ := lexicon.exists_leading_eq_cons first rest
    exact ⟨first, tail, same, isBlank_of_dropWhile found⟩

/-- Without blanks in the literals the lexicon admits the tokens. -/
theorem admits (cut : lexicon.Cut source pieces left) (unbroken : lexicon.Unbroken) :
    ∀ piece ∈ pieces, lexicon.Admits piece.text := by
  induction cut with
  | done => exact fun _ absent => absurd absent List.not_mem_nil
  | round found cut ih =>
    exact List.forall_mem_cons.mpr ⟨admits_leading unbroken (isBlank_of_dropWhile found) _, ih⟩

theorem solid (cut : lexicon.Cut source pieces left) (unbroken : lexicon.Unbroken) :
    ∀ piece ∈ pieces, Solid piece.text := fun piece member => (cut.admits unbroken piece member).2.2

/-- The rounds go on until nothing but blanks is left. -/
theorem exists_blank (lexicon : Lexicon) (source : List Char) :
    ∃ pieces left, lexicon.Cut source pieces left ∧ ∀ char ∈ left, isBlank char := by
  induction width : source.length using Nat.strong_induction_on generalizing source with
  | h width ih =>
    subst width
    cases found : source.dropWhile isBlank with
    | nil => exact ⟨[], source, .done source, List.dropWhile_eq_nil_iff.mp found⟩
    | cons first rest =>
      obtain ⟨pieces, left, cut, blank⟩ := ih _ (lexicon.length_drop_leading_lt found) _ rfl
      exact ⟨_, left, .round found cut, blank⟩

theorem length_add_le (cut : lexicon.Cut source pieces left) : pieces.length + left.length ≤ source.length := by
  induction cut with
  | done left => simp
  | @round source rest left first pieces found cut ih =>
    have shorter := lexicon.length_drop_leading_lt found
    rw [List.length_cons]
    omega

/-- Behind the rounds a trimmed text either ends or has another token. -/
theorem dropWhile_ne_nil {text : List Char} (cut : lexicon.Cut (trimEnd text) pieces left) (something : left ≠ []) :
    left.dropWhile isBlank ≠ [] :=
  dropWhile_ne_nil_of_suffix ⟨_, cut.layOut_append⟩ something

end Cut

/-- Once a trimmed source is cut to its end, the pieces are its tokens. -/
theorem Cut.tokenize_eq {source : String} {pieces : List Piece} (cut : lexicon.Cut (trimEnd source.toList) pieces []) :
    lexicon.tokenize source = Piece.placed 0 pieces := by
  have tokens := cut.tokensFrom_eq []
  have behind := lexicon.tokensFrom_of_blank (List.forall_mem_nil _) (byteWidth ([] ++ Piece.layOut pieces))
  rw [behind, List.append_nil] at tokens
  exact tokens

/-- The pieces of a source: the tokenizer comes to its end, and nothing but blanks is left behind the last token. -/
theorem exists_pieces (lexicon : Lexicon) (source : String) :
    ∃ pieces trailing, lexicon.Cut (trimEnd source.toList) pieces [] ∧
      source.toList = Piece.layOut pieces ++ trailing ∧ (∀ char ∈ trailing, isBlank char) ∧
      lexicon.tokenize source = Piece.placed 0 pieces := by
  obtain ⟨pieces, left, cut, blank⟩ := Cut.exists_blank lexicon (trimEnd source.toList)
  obtain rfl : left = [] := by
    by_contra something
    exact cut.dropWhile_ne_nil something (List.dropWhile_eq_nil_iff.mpr blank)
  obtain ⟨trailing, whole, blankTrailing⟩ := exists_trimEnd source.toList
  rw [← cut.layOut_append, List.append_nil] at whole
  exact ⟨pieces, trailing, cut, whole, blankTrailing, cut.tokenize_eq⟩

/-- Tokenizing is lossless. Every token stands in the source where its offsets say and does not begin with a blank,
the tokens follow each other, and whatever is outside of them is blank, so that without blanks in the literals
the tokens are the source without its blanks. It takes no more rounds than there are characters until nothing is
left of the source without the blanks at its end; every round begins between two characters, and while anything
is left, it is not blank throughout. -/
theorem tokenize_lossless (keywords operators : List String) (source : String) :
    let lexicon := ofLists keywords operators
    let tokens := lexicon.tokenize source
    (∀ token ∈ tokens, token.start < token.stop ∧ Spans source token.start token.stop token.text ∧
      ∃ first ∈ token.text.toList.head?, isBlank first = false) ∧
    tokens.Pairwise (fun token later => token.stop ≤ later.start) ∧
    (∀ range ∈ outside source.utf8ByteSize 0 tokens,
      ∃ blanks, (∀ char ∈ blanks.toList, isBlank char) ∧ Spans source range.1 range.2 blanks) ∧
    ((∀ literal ∈ keywords ++ operators, Solid literal.toList) →
      String.join (tokens.map (·.text)) = String.ofList (source.toList.filter (!isBlank ·))) ∧
    (∃ pieces, lexicon.Cut (trimEnd source.toList) pieces [] ∧ tokens = Piece.placed 0 pieces) ∧
    ∀ pieces left, lexicon.Cut (trimEnd source.toList) pieces left →
      pieces.length + left.length ≤ source.length ∧
      (⟨byteWidth (Piece.layOut pieces)⟩ : String.Pos.Raw).IsValid (String.ofList (trimEnd source.toList)) ∧
      tokens = Piece.placed 0 pieces ++ lexicon.tokensFrom (byteWidth (Piece.layOut pieces)) left ∧
      (left ≠ [] → left.dropWhile isBlank ≠ []) := by
  intro lexicon tokens
  obtain ⟨pieces, trailing, cut, whole, blank, placed⟩ := lexicon.exists_pieces source
  have known : tokens = Piece.placed 0 pieces := placed
  refine ⟨fun token member => ?_, ?_, fun range member => ?_, fun solid => ?_, ⟨pieces, cut, placed⟩,
    fun begun left cut => ⟨?_, ?_, ?_, ?_⟩⟩
  · rw [known] at member
    exact spans_of_mem_placed whole cut.formed member
  · exact known ▸ Piece.pairwise_placed 0 pieces
  · rw [known] at member
    have fromStart : source.toList = [] ++ Piece.layOut pieces ++ trailing := whole
    exact spans_of_mem_outside fromStart cut.formed blank member
  · have unbroken : lexicon.Unbroken := List.forall_mem_map.mpr solid
    rw [known, Piece.join_placed cut.formed (cut.solid unbroken), whole, List.filter_append, filter_of_blank blank,
      List.append_nil]
  · calc
      _ ≤ (trimEnd source.toList).length := cut.length_add_le
      _ ≤ source.length := length_trimEnd_le source.toList
  · rw [← cut.layOut_append]
    exact isValid_byteWidth (Piece.layOut begun) left
  · exact cut.tokensFrom_eq []
  · exact cut.dropWhile_ne_nil

theorem join_tokenize_accented :
    (∀ literal ∈ ["do", ""] ++ ["é="], Solid literal.toList) ∧
    String.join (((ofLists ["do", ""] ["é="]).tokenize "\u2003do é=1 ").map (·.text)) = "doé=1" := by
  have solid : ∀ literal ∈ ["do", ""] ++ ["é="], Solid literal.toList := by decide
  refine ⟨solid, ?_⟩
  rw [(tokenize_lossless ["do", ""] ["é="] "\u2003do é=1 ").2.2.2.1 solid]
  decide

end Lexicon

end Viable
