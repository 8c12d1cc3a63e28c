import Viable.Proofs.Token.Munch

/-! A source can be cut in two where a token ends. The tokens of the second part are the tokens behind the cut, and
those of the first part are the tokens before it, if no literal ends with a blank. -/

namespace Viable

open Text

/-- The same token with some more bytes in front of it. -/
def Token.shift (bytes : Nat) (token : Token) : Token := ⟨token.text, token.start + bytes, token.stop + bytes⟩

namespace Piece

variable {pieces : List Piece}

theorem placed_add (offset bytes : Nat) (pieces : List Piece) :
    placed (offset + bytes) pieces = (placed offset pieces).map (·.shift bytes) := by
  induction pieces generalizing offset with
  | nil => rfl
  | cons piece pieces ih =>
    have start : offset + bytes + byteWidth piece.gap = offset + byteWidth piece.gap + bytes := by omega
    have stop : offset + byteWidth piece.gap + bytes + byteWidth piece.text =
        offset + byteWidth piece.gap + byteWidth piece.text + bytes := by omega
    simp only [placed, start, stop, ih, List.map_cons, Token.shift]

theorem exists_of_getElem?_placed {offset index : Nat} {token : Token}
    (present : (placed offset pieces)[index]? = some token) :
    ∃ before piece after, pieces = before ++ piece :: after ∧ before.length = index ∧
      token.stop = offset + byteWidth (layOut (before ++ [piece])) := by
  have inside : index < pieces.length := by
    rw [← length_placed offset pieces]
    exact (List.getElem?_eq_some_iff.mp present).1
  have split : pieces = pieces.take index ++ pieces[index] :: pieces.drop (index + 1) := by
    rw [List.getElem_cons_drop, List.take_append_drop]
  have length : (pieces.take index).length = index := List.length_take_of_le inside.le
  refine ⟨_, _, _, split, length, ?_⟩
  have found := getElem?_placed offset (pieces.take index) pieces[index] (pieces.drop (index + 1))
  rw [← split, length, present] at found
  rw [Option.some.inj found, layOut_append, layOut_cons, layOut_nil, List.append_nil, List.append_assoc]

end Piece

namespace Lexicon

variable {lexicon : Lexicon}

/-- No literal ends with a blank. -/
def Closed (lexicon : Lexicon) : Prop := ∀ literal ∈ lexicon.literals, ∀ last ∈ literal.getLast?, isBlank last = false

theorem Unbroken.closed (unbroken : lexicon.Unbroken) : lexicon.Closed :=
  fun literal member last ends => unbroken literal member last (List.mem_of_getLast? ends)

/-- What leads a text leads whatever is between the two. -/
theorem Leads.of_isPrefix {source shorter text : List Char} (leads : lexicon.Leads source text)
    (begins : text <+: shorter) (within : shorter <+: source) : lexicon.Leads shorter text := by
  refine ⟨begins, ?_⟩
  rcases leads.2 with ⟨something, listed, longest⟩ | ⟨single, none⟩
  · exact .inl ⟨something, listed, fun literal member begins => longest literal member (begins.trans within)⟩
  · exact .inr ⟨single, fun literal member begins => none literal member (begins.trans within)⟩

namespace Cut

variable {source left : List Char} {pieces first second : List Piece}

theorem split (cut : lexicon.Cut source (first ++ second) left) :
    ∃ between, lexicon.Cut source first between ∧ lexicon.Cut between second left := by
  induction first generalizing source with
  | nil => exact ⟨source, .done source, cut⟩
  | cons piece first ih =>
    cases cut with
    | round found cut =>
      obtain ⟨between, cutFirst, cutSecond⟩ := ih cut
      exact ⟨between, .round found cutFirst, cutSecond⟩

/-- Blanks and a token are cut off in one round. -/
theorem cons {gap tail rest : List Char} {first : Char} (blank : ∀ char ∈ gap, isBlank char)
    (solid : isBlank first = false) (leads : lexicon.Leads (first :: (tail ++ rest)) (first :: tail))
    (cut : lexicon.Cut rest pieces left) :
    lexicon.Cut (gap ++ first :: (tail ++ rest)) (⟨gap, first :: tail⟩ :: pieces) left := by
  have leading := leading_eq_iff.mpr leads
  have behind : (first :: (tail ++ rest)).drop (lexicon.leading first (tail ++ rest)).length = rest := by
    rw [leading, ← List.cons_append, List.drop_left]
  have round := Cut.round (dropWhile_gap blank solid (tail ++ rest)) (behind.symm ▸ cut)
  rwa [takeWhile_gap blank solid, leading] at round

/-- The same pieces are cut off when nothing comes behind them, since what leads the source leads them as well. -/
theorem layOut (cut : lexicon.Cut source pieces left) : lexicon.Cut (Piece.layOut pieces) pieces [] := by
  induction cut with
  | done left => exact .done []
  | @round source rest left first pieces found cut ih =>
    have leads := lexicon.leads_leading first rest
    have whole := List.prefix_iff_eq_append.mp leads.1
    rw [← cut.layOut_append, ← List.append_assoc] at whole
    obtain ⟨tail, text⟩ := lexicon.exists_leading_eq_cons first rest
    rw [text] at leads whole ⊢
    rw [Piece.layOut_cons, List.append_assoc]
    exact .cons (fun char member => List.mem_takeWhile_imp member) (isBlank_of_dropWhile found)
      (leads.of_isPrefix (List.prefix_append _ _) ⟨left, whole⟩) ih

/-- What is laid out ends with the last token, which does not end with a blank if no literal does. -/
theorem isBlank_last_layOut (cut : lexicon.Cut source pieces left) (closed : lexicon.Closed) :
    ∀ last ∈ (Piece.layOut pieces).getLast?, isBlank last = false := by
  induction cut with
  | done => exact fun last absent => by cases absent
  | @round source rest left first pieces found cut ih =>
    intro last ends
    rw [Piece.layOut_cons, List.getLast?_append] at ends
    cases behind : (Piece.layOut pieces).getLast? with
    | some other =>
      rw [behind, Option.some_or] at ends
      exact ih last (behind.trans ends)
    | none =>
      rw [behind, Option.none_or, List.getLast?_append_of_ne_nil _ (lexicon.leading_ne_nil first rest)] at ends
      rcases lexicon.leading_cases first rest with ⟨single, _⟩ | ⟨listed, _⟩
      · rw [single] at ends
        cases ends
        exact isBlank_of_dropWhile found
      · exact closed _ listed last ends

/-- Alone, the pieces are the tokens of what they lay out. -/
theorem tokenize_layOut (cut : lexicon.Cut source pieces left) (closed : lexicon.Closed) :
    lexicon.tokenize (String.ofList (Piece.layOut pieces)) = Piece.placed 0 pieces := by
  refine Cut.tokenize_eq ?_
  rw [String.toList_ofList, trimEnd_of_getLast? (cut.isBlank_last_layOut closed)]
  exact cut.layOut

/-- What is left of a trimmed source is cut on its own as it is behind the pieces. -/
theorem tokenize_left {source : String} {between trailing : List Char}
    (cutFirst : lexicon.Cut (trimEnd source.toList) first between) (cutSecond : lexicon.Cut between second [])
    (blank : ∀ char ∈ trailing, isBlank char) :
    lexicon.tokenize (String.ofList (between ++ trailing)) = Piece.placed 0 second := by
  have kept : trimEnd between = between := by
    refine trimEnd_of_getLast? fun last ends => ?_
    have whole : (trimEnd source.toList).getLast? = some last := by
      rw [← cutFirst.layOut_append, List.getLast?_append, ends, Option.some_or]
    exact isBlank_last_trimEnd whole
  refine Cut.tokenize_eq ?_
  rw [String.toList_ofList, trimEnd_append_of_blank blank, kept]
  exact cutSecond

end Cut

/-- Behind the token with some index the source is cut in two, and its tokens are cut there too. -/
theorem exists_cut {source : String} {index : Nat} {token : Token}
    (present : (lexicon.tokenize source)[index]? = some token) :
    ∃ front back, source = front ++ back ∧ front.utf8ByteSize = token.stop ∧
      (lexicon.tokenize source).drop (index + 1) = (lexicon.tokenize back).map (·.shift token.stop) ∧
      (lexicon.Closed → lexicon.tokenize front = (lexicon.tokenize source).take (index + 1)) := by
  obtain ⟨pieces, trailing, cut, whole, blank, placed⟩ := lexicon.exists_pieces source
  rw [placed] at present
  obtain ⟨before, piece, after, rfl, length, stop⟩ := Piece.exists_of_getElem?_placed present
  have split : before ++ piece :: after = (before ++ [piece]) ++ after := by simp
  rw [split] at cut whole placed
  rw [Piece.placed_append] at placed
  obtain ⟨between, cutFirst, cutSecond⟩ := cut.split
  have count : (Piece.placed 0 (before ++ [piece])).length = index + 1 := by
    rw [Piece.length_placed, List.length_append, length, List.length_singleton]
  have behind : Piece.layOut after = between := by rw [← cutSecond.layOut_append, List.append_nil]
  rw [Nat.zero_add] at stop
  refine ⟨String.ofList (Piece.layOut (before ++ [piece])), String.ofList (between ++ trailing), ?_, ?_, ?_, ?_⟩
  · rw [← String.ofList_append, ← List.append_assoc, ← behind, ← Piece.layOut_append, ← whole, String.ofList_toList]
  · rw [← byteWidth_eq, stop]
  · rw [placed, cutFirst.tokenize_left cutSecond blank, List.drop_left' count, Piece.placed_add, stop]
  · intro closed
    rw [placed, cutFirst.tokenize_layOut closed, List.take_left' count]

end Lexicon

end Viable
