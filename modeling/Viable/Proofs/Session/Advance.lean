import Viable.Proofs.Chart.Deduction
import Viable.Session

/-! What one token, and a list of tokens, does to a session. A session is changed by legal tokens only, and a
rewind takes back whatever was consumed behind its checkpoint. -/

namespace Viable

theorem TokenSet.mem_expected {grammar : Grammar} {column : Column} {token : String} :
    token ∈ (column.expected grammar).toList ↔ ∃ item ∈ column, item.next? grammar = some (.terminal token) := by
  rw [Column.expected, mem_ofList, List.mem_filterMap]
  refine exists_congr fun item => and_congr_right fun _ => ?_
  cases item.next? grammar with
  | none => simp
  | some symbol => cases symbol <;> simp [Symbol.text?]

namespace Session

variable {grammar : Grammar}

/-- All columns, from the one before any token to the current one. -/
def columns (session : Session grammar) : Array Column := session.earlier.push session.current

theorem size_columns (session : Session grammar) : session.columns.size = session.consumed + 1 := by
  rw [columns, Array.size_push, consumed]

theorem columns_consumed (session : Session grammar) : session.columns[session.consumed]? = some session.current := by
  simp [columns, consumed]

/-- The items behind a token, before anything is added to them. -/
def scanned (session : Session grammar) (token : String) : List Item :=
  session.current.filterMap (·.over? grammar (.terminal token))

/-- The session behind a legal token. -/
def following (session : Session grammar) (token : String) : Session grammar where
  start := session.start
  earlier := session.columns
  current := .close grammar session.columns (session.scanned token)

theorem scanned_eq_nil_iff {session : Session grammar} {token : String} :
    session.scanned token = [] ↔ token ∉ session.legal.toList := by
  rw [legal, TokenSet.mem_expected, List.eq_nil_iff_forall_not_mem]
  constructor
  · intro nothing expected
    obtain ⟨item, member, next⟩ := expected
    exact nothing item.advance (Item.mem_filterMap_over?.mpr ⟨item, member, next, rfl⟩)
  · intro illegal other present
    obtain ⟨item, member, next, _⟩ := Item.mem_filterMap_over?.mp present
    exact illegal ⟨item, member, next⟩

/-- Legality decides: the token is consumed, or it is refused and the session is not touched. -/
theorem advance_eq (session : Session grammar) (token : String) :
    session.advance token = if token ∈ session.legal.toList then .ok (session.following token)
      else .error ⟨token, session.consumed, session.legal⟩ := by
  unfold advance
  split
  case h_1 nothing => rw [if_neg (scanned_eq_nil_iff.mp nothing)]
  case h_2 something =>
    by_cases legal : token ∈ session.legal.toList
    · rw [if_pos legal]
      rfl
    · exact absurd (scanned_eq_nil_iff.mpr legal) something

theorem advance_of_legal {session : Session grammar} {token : String} (legal : token ∈ session.legal.toList) :
    session.advance token = .ok (session.following token) := by
  rw [advance_eq, if_pos legal]

theorem advance_of_not_legal {session : Session grammar} {token : String}
    (illegal : token ∉ session.legal.toList) :
    session.advance token = .error ⟨token, session.consumed, session.legal⟩ := by
  rw [advance_eq, if_neg illegal]

theorem advance_eq_ok_iff {session after : Session grammar} {token : String} :
    session.advance token = .ok after ↔ token ∈ session.legal.toList ∧ after = session.following token := by
  rw [advance_eq]
  split <;> simp_all [eq_comm]

@[simp] theorem consumed_following (session : Session grammar) (token : String) :
    (session.following token).consumed = session.consumed + 1 := by
  simp [consumed, following, columns]

/-- A checkpoint that does not lie behind the current place changes nothing. -/
theorem rewind_of_le {session : Session grammar} {checkpoint : Nat}
    (ahead : session.consumed ≤ checkpoint) : session.rewind checkpoint = session := by
  have absent : session.earlier[checkpoint]? = none := Array.getElem?_eq_none ahead
  simp only [rewind, absent]

/-- The last token is taken back first. -/
theorem rewind_following {session : Session grammar} {checkpoint : Nat}
    (behind : checkpoint ≤ session.consumed) (token : String) :
    (session.following token).rewind checkpoint = session.rewind checkpoint := by
  rcases Nat.lt_or_eq_of_le behind with before | here
  · have inside : checkpoint < session.earlier.size := before
    have column : session.columns[checkpoint]? = session.earlier[checkpoint]? := by
      rw [columns, Array.getElem?_push_lt (by omega), Array.getElem?_eq_getElem inside]
    have earlier : session.columns.take checkpoint = session.earlier.take checkpoint :=
      Array.extract_push_of_le behind
    simp only [rewind, following, column, earlier, Array.getElem?_eq_getElem inside]
  · subst here
    have column := session.columns_consumed
    have earlier : session.columns.take session.consumed = session.earlier := by
      simp [columns, consumed]
    rw [rewind_of_le (Nat.le_refl _)]
    simp only [rewind, following, column, earlier]

/-- A checkpoint taken right before a token brings back the session as it was then. -/
theorem rewind_checkpoint_following (session : Session grammar) (token : String) :
    (session.following token).rewind session.checkpoint = session :=
  (rewind_following (Nat.le_refl _) token).trans (rewind_of_le (Nat.le_refl _))

/-- Advances over tokens in turn, as far as the first refusal. -/
def advanceAll (session : Session grammar) (tokens : List String) : Except Rejection (Session grammar) :=
  tokens.foldlM advance session

@[simp] theorem advanceAll_nil (session : Session grammar) : session.advanceAll [] = .ok session := rfl

theorem advanceAll_append (session : Session grammar) (first second : List String) :
    session.advanceAll (first ++ second) = (session.advanceAll first).bind (·.advanceAll second) :=
  List.foldlM_append

theorem advanceAll_append_of_ok {session between : Session grammar} {first : List String}
    (reads : session.advanceAll first = .ok between) (second : List String) :
    session.advanceAll (first ++ second) = between.advanceAll second := by
  rw [advanceAll_append, reads]
  rfl

theorem advanceAll_singleton (session : Session grammar) (token : String) :
    session.advanceAll [token] = session.advance token := by
  cases advanced : session.advance token <;> simp [advanceAll, advanced, bind, Except.bind, pure, Except.pure]

theorem advanceAll_append_eq_ok_iff {session final : Session grammar} {first second : List String} :
    session.advanceAll (first ++ second) = .ok final ↔
      ∃ between, session.advanceAll first = .ok between ∧ between.advanceAll second = .ok final := by
  rw [advanceAll_append]
  cases session.advanceAll first <;> simp [Except.bind]

theorem advanceAll_cons (session : Session grammar) (token : String) (rest : List String) :
    session.advanceAll (token :: rest) = (session.advance token).bind (·.advanceAll rest) := by
  rw [← advanceAll_singleton, ← advanceAll_append, List.singleton_append]

theorem advanceAll_cons_eq_ok_iff {session final : Session grammar} {token : String} {rest : List String} :
    session.advanceAll (token :: rest) = .ok final ↔
      token ∈ session.legal.toList ∧ (session.following token).advanceAll rest = .ok final := by
  rw [advanceAll_cons, advance_eq]
  split
  case isTrue legal => simp [legal, Except.bind]
  case isFalse illegal => simp [illegal, Except.bind]

/-- The session has consumed the tokens, from a fresh session of the start on. -/
inductive Reads (grammar : Grammar) (start : Name) : List String → Session grammar → Prop where
  | fresh {initial : Session grammar} (opened : ofStart grammar start = .ok initial) :
      Reads grammar start [] initial
  | next {tokens : List String} {session after : Session grammar} {token : String}
      (reads : Reads grammar start tokens session) (advanced : session.advance token = .ok after) :
      Reads grammar start (tokens ++ [token]) after

namespace Reads

variable {start : Name} {tokens : List String} {session : Session grammar}

theorem following (reads : Reads grammar start tokens session) {token : String}
    (legal : token ∈ session.legal.toList) : Reads grammar start (tokens ++ [token]) (session.following token) :=
  reads.next (advance_of_legal legal)

theorem advanceAll (reads : Reads grammar start tokens session) {more : List String} {final : Session grammar}
    (advanced : session.advanceAll more = .ok final) : Reads grammar start (tokens ++ more) final := by
  induction more generalizing tokens session with
  | nil =>
    cases advanced
    rwa [List.append_nil]
  | cons token more ih =>
    rw [List.append_cons]
    obtain ⟨legal, advanced⟩ := advanceAll_cons_eq_ok_iff.mp advanced
    exact ih (reads.following legal) advanced

/-- Reading is advancing a fresh session. -/
theorem exists_initial (reads : Reads grammar start tokens session) :
    ∃ initial, ofStart grammar start = .ok initial ∧ initial.advanceAll tokens = .ok session := by
  induction reads with
  | @fresh initial opened => exact ⟨initial, opened, rfl⟩
  | next _ advanced ih =>
    obtain ⟨initial, opened, consumed⟩ := ih
    refine ⟨initial, opened, ?_⟩
    rw [advanceAll_append_of_ok consumed, advanceAll_singleton, advanced]

theorem consumed_eq (reads : Reads grammar start tokens session) : session.consumed = tokens.length := by
  induction reads with
  | fresh opened =>
    unfold ofStart at opened
    split at opened <;> cases opened
    rfl
  | next _ advanced ih =>
    obtain ⟨_, rfl⟩ := advance_eq_ok_iff.mp advanced
    simp [ih]

/-- A session is determined by its start and its tokens. -/
theorem unique {other : Session grammar} (reads : Reads grammar start tokens session)
    (readsOther : Reads grammar start tokens other) : session = other := by
  obtain ⟨initial, opened, consumed⟩ := reads.exists_initial
  obtain ⟨initialOther, openedOther, consumedOther⟩ := readsOther.exists_initial
  cases opened.symm.trans openedOther
  exact Except.ok.inj (consumed.symm.trans consumedOther)

/-- A rewound session has consumed the tokens before the checkpoint and no others. -/
theorem rewind (reads : Reads grammar start tokens session) (checkpoint : Nat) :
    Reads grammar start (tokens.take checkpoint) (session.rewind checkpoint) := by
  induction reads with
  | fresh opened =>
    have consumed : Session.consumed _ = 0 := (Reads.fresh opened).consumed_eq
    rw [rewind_of_le (by omega), List.take_nil]
    exact .fresh opened
  | @next tokens session after token reads advanced ih =>
    obtain ⟨legal, rfl⟩ := advance_eq_ok_iff.mp advanced
    have consumed := reads.consumed_eq
    by_cases behind : checkpoint ≤ session.consumed
    · rw [rewind_following behind, List.take_append_of_le_length (by omega)]
      exact ih
    · rw [rewind_of_le (by rw [consumed_following]; omega), List.take_of_length_le (by simp; omega)]
      exact reads.following legal

end Reads

end Session

end Viable
