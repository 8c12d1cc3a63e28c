import Mathlib.Data.Set.Card
import Viable.CommandLine.Log
import Viable.Proofs.Session.Recognition

/-! The columns of a session. Each of them holds the valid items of its place and no others, every one once, and it is
determined by them: in whatever order the items of a column are taken while it is closed, they are the same. -/

namespace Viable

/-- The items that are valid after `place` of the tokens, in terms of rewriting: their production can stand behind the
tokens before the origin, and the symbols before the dot can be rewritten to the tokens since then. -/
def validItems (productions : List Production) (start : Name) (tokens : List String) (place : Nat) : Set Item :=
  {item | item.origin ≤ place ∧ ∃ production, productions[item.production]? = some production ∧
    item.dot ≤ production.body.length ∧
    (∃ rest, RewritesTo productions [.nonterminal start]
      (spell (tokens.take item.origin) ++ .nonterminal production.head :: rest)) ∧
    RewritesTo productions (production.body.take item.dot) (spell (tokens.extract item.origin place))}

variable {grammar : Grammar} {start : Name} {tokens : List String} {place : Nat} {item : Item} {column : Column}

theorem mem_validItems : item ∈ validItems grammar.productions.toList start tokens place ↔
    ∃ production, item.Valid grammar start tokens place production := by
  simp only [validItems, Set.mem_ofPred_eq, ← derives_iff_rewritesTo, Array.getElem?_toList]
  constructor
  · intro valid
    obtain ⟨origin, production, present, dot, context, matched⟩ := valid
    exact ⟨production, present, dot, origin, context, matched⟩
  · intro valid
    obtain ⟨production, present, dot, origin, context, matched⟩ := valid
    exact ⟨origin, production, present, dot, context, matched⟩

namespace Session

variable {session : Session grammar}

/-- What the column of a place is closed from: the alternatives of the start, or the items of the column before it that
the token in between has moved. -/
def seeds (session : Session grammar) (tokens : List String) : Nat → List Item
  | 0 => (grammar.alternatives session.start).map (⟨·, 0, 0⟩)
  | place + 1 =>
    match session.columns[place]?, tokens[place]? with
    | some column, some token => column.filterMap (·.over? grammar (.terminal token))
    | _, _ => []

theorem columns_following (session : Session grammar) (token : String) :
    (session.following token).columns =
      session.columns.push (Column.close grammar session.columns (session.scanned token)) := rfl

namespace Reads

theorem size_columns (reads : Reads grammar start tokens session) : session.columns.size = tokens.length + 1 := by
  rw [session.size_columns, reads.consumed_eq]

theorem columns_length (reads : Reads grammar start tokens session) :
    session.columns[tokens.length]? = some session.current :=
  reads.consumed_eq ▸ session.columns_consumed

theorem seeds_seeds (reads : Reads grammar start tokens session) (inside : place ≤ tokens.length) :
    Column.Seeds grammar start tokens place (session.seeds tokens place) := by
  have chart := reads.exactChart
  cases place with
  | zero =>
    rw [seeds, chart.start_eq]
    exact Column.seeds_start grammar start tokens
  | succ place =>
    have before : place < session.columns.size := by
      rw [reads.size_columns]
      omega
    have found := Array.getElem?_eq_getElem before
    have read : tokens[place]? = some tokens[place] := List.getElem?_eq_getElem (by omega)
    rw [seeds, found, read]
    exact Column.seeds_scanned (chart.exact place _ found) read

theorem seeds_following (reads : Reads grammar start tokens session) (token : String) (inside : place ≤ tokens.length) :
    (session.following token).seeds (tokens ++ [token]) place = session.seeds tokens place := by
  cases place with
  | zero => rfl
  | succ place =>
    have before : place < session.columns.size := by
      rw [reads.size_columns]
      omega
    have column : (session.following token).columns[place]? = session.columns[place]? := by
      rw [columns_following, Array.getElem?_push_lt before, Array.getElem?_eq_getElem before]
    have read : (tokens ++ [token])[place]? = tokens[place]? := List.getElem?_append_left (by omega)
    rw [seeds, seeds, column, read]

theorem seeds_last (reads : Reads grammar start tokens session) (token : String) :
    (session.following token).seeds (tokens ++ [token]) (tokens.length + 1) = session.scanned token := by
  have column : (session.following token).columns[tokens.length]? = some session.current := by
    have inside : tokens.length < session.columns.size := by
      rw [reads.size_columns]
      omega
    rw [columns_following, Array.getElem?_push_lt inside, ← Array.getElem?_eq_getElem inside, reads.columns_length]
  have read : (tokens ++ [token])[tokens.length]? = some token := by simp
  rw [seeds, column, read]
  rfl

/-- Every column has been closed from its seeds. -/
theorem eq_close (reads : Reads grammar start tokens session) (found : session.columns[place]? = some column) :
    column = Column.close grammar (session.columns.take place) (session.seeds tokens place) := by
  -- One more token adds the last column. It changes neither the columns before a place nor the seeds there.
  induction reads generalizing place column with
  | fresh opened =>
    unfold ofStart at opened
    split at opened
    case isFalse => cases opened
    case isTrue =>
      cases opened
      rw [columns, Array.getElem?_push] at found
      split at found
      case isTrue first =>
        cases found
        subst first
        simp [columns, seeds]
      case isFalse => simp at found
  | @next tokens session after token reads advanced ih =>
    obtain ⟨_, rfl⟩ := advance_eq_ok_iff.mp advanced
    have size := reads.size_columns
    rw [columns_following, Array.getElem?_push] at found
    split at found
    case isTrue last =>
      cases found
      have earlier : (session.following token).columns.take place = session.columns := by
        rw [columns_following, last]
        simp
      rw [earlier, last, size, reads.seeds_last]
    case isFalse =>
      have inside : place < session.columns.size := (Array.getElem?_eq_some_iff.mp found).1
      have earlier : (session.following token).columns.take place = session.columns.take place := by
        rw [columns_following]
        exact Array.extract_push_of_le inside.le
      rw [earlier, reads.seeds_following token (by omega)]
      exact ih found

/-- The columns before a place and the seeds there are as they have to be for the column to be exact. -/
theorem closing (reads : Reads grammar start tokens session) (inside : place ≤ tokens.length) :
    Column.AllExact grammar start tokens (session.columns.take place) ∧
      Column.Seeds grammar start tokens (session.columns.take place).size (session.seeds tokens place) := by
  have size : (session.columns.take place).size = place := by
    rw [Array.take, Array.size_extract, reads.size_columns]
    omega
  rw [size]
  exact ⟨reads.exactChart.exact.take place, reads.seeds_seeds inside⟩

theorem le_length (reads : Reads grammar start tokens session) (found : session.columns[place]? = some column) :
    place ≤ tokens.length := by
  have inside : place < session.columns.size := (Array.getElem?_eq_some_iff.mp found).1
  rw [reads.size_columns] at inside
  omega

theorem mem_column_iff (reads : Reads grammar start tokens session) (found : session.columns[place]? = some column)
    (item : Item) : item ∈ column ↔ item ∈ validItems grammar.productions.toList start tokens place := by
  rw [reads.exactChart.exact place column found item, charted_iff_valid (reads.le_length found), mem_validItems]

theorem nodup_column (reads : Reads grammar start tokens session) (found : session.columns[place]? = some column) :
    column.Nodup := by
  rw [reads.eq_close found]
  exact nodup_saturate ..

theorem length_column (reads : Reads grammar start tokens session) (found : session.columns[place]? = some column) :
    column.length = (validItems grammar.productions.toList start tokens place).ncard := by
  have same : validItems grammar.productions.toList start tokens place = column.toFinset := by
    ext item
    rw [Finset.mem_coe, List.mem_toFinset, reads.mem_column_iff found]
  rw [same, Set.ncard_coe_finset, List.toFinset_card_of_nodup (reads.nodup_column found)]

end Reads

open CommandLine in
/-- The column of each place holds exactly the valid items, each of them once. Its size, which is what is logged when it
has been built, is the number of these items, and the items are the same in whatever order they were taken while it
was closed. -/
theorem columns_valid {productions : List Production} {grammar : Grammar}
    (built : Grammar.ofProductions productions = .ok grammar) {start : Name} {tokens : List String}
    {session : Session grammar} (reads : Reads grammar start tokens session) :
    session.columns.size = tokens.length + 1 ∧
    (∀ place column, session.columns[place]? = some column →
      (∀ item, item ∈ column ↔ item ∈ validItems productions start tokens place) ∧ column.Nodup ∧
      column.length = (validItems productions start tokens place).ncard ∧
      (∃ items, Worklist.Ends (Column.successors grammar (session.columns.take place)) (session.seeds tokens place) items) ∧
      ∀ items, Worklist.Ends (Column.successors grammar (session.columns.take place)) (session.seeds tokens place) items →
        items.Perm column) ∧
    ∀ token after policy, session.advance token = .ok after →
      let count := (validItems productions start (tokens ++ [token]) (tokens.length + 1)).ncard
      (LogLine.advanced policy session token).map (·.message) =
        [s!"earley set built position={tokens.length + 1} items={count} token={Text.quoted token}"] := by
  have same := Grammar.productions_of_ofProductions built
  subst same
  refine ⟨reads.size_columns, fun place column found => ?_, fun token after policy advanced => ?_⟩
  · obtain ⟨earlier, seeds⟩ := reads.closing (reads.le_length found)
    refine ⟨reads.mem_column_iff found, reads.nodup_column found, reads.length_column found,
      Worklist.exists_ends fun _ => Column.mem_items_of_reached earlier seeds, fun items ends => ?_⟩
    rw [reads.eq_close found]
    exact Column.perm_close earlier seeds ends
  · have readsAfter := reads.next advanced
    have last : after.columns[(tokens ++ [token]).length]? = some after.current := by
      rw [← readsAfter.consumed_eq]
      simp [columns, consumed]
    have size := readsAfter.length_column last
    rw [List.length_append, List.length_singleton] at size
    simp only [LogLine.advanced, advanced, List.map_cons, List.map_nil, LogLine.columnBuilt, size, readsAfter.consumed_eq,
      List.length_append, List.length_singleton]

/-- Behind a star, one mark of the line has been matched, and so have both of them, the other being empty. -/
theorem column_behind_star : ∃ grammar session column, Grammar.ofProductions marks = .ok grammar ∧
    Reads grammar (.given "line") ["*"] session ∧ session.columns[1]? = some column ∧
    ⟨0, 1, 0⟩ ∈ column ∧ ⟨0, 2, 0⟩ ∈ column ∧ ⟨0, 0, 0⟩ ∉ column := by
  have built := Grammar.ofProductions_of_complete complete_marks
  have line : ⟨.given "line", [.nonterminal (.given "mark"), .nonterminal (.given "mark"), .terminal "end"]⟩ ∈
    marks := by decide
  have empty : ⟨.given "mark", []⟩ ∈ marks := by decide
  have visible : ⟨.given "mark", [.terminal "*"]⟩ ∈ marks := by decide
  have none : Derives marks [.nonterminal (.given "mark")] [] := .of_body empty .nil
  have star : Derives marks [.nonterminal (.given "mark")] ["*"] := .of_body visible (.spell ["*"])
  have marked : Derives marks [.nonterminal (.given "line")] (["*"] ++ ["end"]) :=
    .of_body line (star.append (none.append (.spell ["end"])))
  have heads : ∃ production ∈ (Grammar.ofComplete marks complete_marks).productions.toList,
      production.head = .given "line" := ⟨_, line, rfl⟩
  obtain ⟨session, reads⟩ : ∃ session, Reads (.ofComplete marks complete_marks) (.given "line") ["*"] session :=
    exists_reads (exists_initial heads) marked.rewritesTo
  obtain ⟨size, columns, -⟩ := columns_valid built reads
  have found := Array.getElem?_eq_getElem (show 1 < session.columns.size by rw [size]; decide)
  have exact := (columns 1 _ found).1
  refine ⟨_, session, _, built, reads, found, (exact _).mpr ?_, (exact _).mpr ?_, fun present => ?_⟩
  · exact ⟨by decide, _, rfl, by decide, ⟨[], .refl⟩, star.rewritesTo⟩
  · exact ⟨by decide, _, rfl, by decide, ⟨[], .refl⟩, (star.append none).rewritesTo⟩
  · obtain ⟨_, production, _, _, _, matched⟩ := (exact _).mp present
    obtain ⟨tree, same⟩ := derives_iff_rewritesTo.mpr matched
    cases tree
    cases same

end Session

end Viable
