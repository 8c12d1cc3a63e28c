import Viable.Proofs.Grammar.Index
import Viable.Proofs.Recovery.Push
import Viable.Proofs.Session.Columns

/-! Columns are closed in bounded space. Whatever waits or is found on the way stays among finitely many items, which
are known beforehand, and nothing that does not exist is looked up. -/

namespace Viable

/-- What becomes of a matched production: it is looked up in the column where it began, which is there already, or it
began in the column that is being closed, and is not looked up. -/
inductive Column.Completes (grammar : Grammar) (earlier : Array Column) (item : Item) : Prop where
  | here (origin : item.origin = earlier.size) (nothing : successors grammar earlier item = [])
  | before {column : Column} {name : Name} (origin : item.origin < earlier.size)
      (found : earlier[item.origin]? = some column) (head : item.head? grammar = some name)
      (moved : successors grammar earlier item = column.filterMap (·.over? grammar (.nonterminal name)))

/-- What can be relied on when a column is closed from its seeds, over the columns before it. -/
structure Column.Closing (grammar : Grammar) (earlier : Array Column) (seeds : List Item) : Prop where
  /-- However the waiting items are taken, it does not go on for ever. -/
  descends : Acc (fun next list => Worklist.Turn (successors grammar earlier) list next) (.start seeds)
  /-- A column that is its own worklist is scanned to its end, and then has the items that it is closed with. -/
  scanned : ∃ found, Scan.Ends (successors grammar earlier) ⟨seeds, 0⟩ found ∧ found.Perm (close grammar earlier seeds)
  /-- The rounds of the closing end by themselves and not for want of room. -/
  roomy : ∀ more, saturate (successors grammar earlier) (grammar.dottedCount * (earlier.size + 1) + more) seeds =
    close grammar earlier seeds
  length_le : (close grammar earlier seeds).length ≤
    (earlier.size + 1) * (grammar.productions.toList.map (·.body.length + 1)).sum
  /-- Whatever waits or has been found on the way, it is in range, and what it is completed from is there. -/
  inRange : ∀ list, Worklist.Passes (successors grammar earlier) seeds list →
    ∀ item, item ∈ list.agenda ∨ item ∈ list.found →
      item.InRange grammar earlier.size ∧ (item.next? grammar = none → Completes grammar earlier item)

variable {grammar : Grammar} {start : Name} {tokens : List String} {earlier : Array Column} {items : List Item} {item : Item}

theorem Item.advance_injective : Function.Injective Item.advance := by
  intro item other same
  cases item
  cases other
  simpa [advance] using same

theorem Item.nodup_filterMap_over? (distinct : items.Nodup) (symbol : Symbol) :
    (items.filterMap (·.over? grammar symbol)).Nodup := by
  refine distinct.filterMap fun item other moved first second => Item.advance_injective ?_
  simp only [over?, Option.mem_def, Option.ite_none_right_eq_some, Option.some_inj] at first second
  exact first.2.trans second.2.symm

namespace Column

theorem completes (range : item.InRange grammar earlier.size) (finished : item.next? grammar = none) :
    Completes grammar earlier item := by
  have head := Item.head?_eq (Array.getElem?_eq_getElem range.production_lt)
  rcases Nat.lt_or_eq_of_le range.origin_le with before | here
  · have found := Array.getElem?_eq_getElem before
    exact .before before found head (by simp only [successors, finished, found, head])
  · have absent : earlier[item.origin]? = none := Array.getElem?_eq_none here.ge
    exact .here here (by simp only [successors, finished, absent])

theorem inRange_of_mem_close (exact : AllExact grammar start tokens earlier)
    (seeds : Seeds grammar start tokens earlier.size items) (member : item ∈ close grammar earlier items) :
    item.InRange grammar earlier.size :=
  Grammar.mem_items.mp (mem_items_of_reached exact seeds ((mem_close_iff exact seeds item).mp member))

/-- There are no more items in a closed column than dotted productions with an origin so far. -/
theorem length_close_le (exact : AllExact grammar start tokens earlier)
    (seeds : Seeds grammar start tokens earlier.size items) : (close grammar earlier items).length ≤
      (earlier.size + 1) * (grammar.productions.toList.map (·.body.length + 1)).sum := by
  have fits := List.subperm_of_subset (nodup_saturate ..) fun item member =>
    Grammar.mem_items.mpr (inRange_of_mem_close exact seeds member)
  calc
    _ ≤ (grammar.items earlier.size).length := fits.length_le
    _ = _ := by rw [grammar.length_items, grammar.dottedCount_eq, Nat.mul_comm]

/-- Whatever can be reached is among finitely many items, and that is enough for the rest. -/
theorem closing (exact : AllExact grammar start tokens earlier) (seeds : Seeds grammar start tokens earlier.size items)
    (distinct : items.Nodup) : Closing grammar earlier items := by
  have inside (item : Item) (reached : Reached (successors grammar earlier) items item) :
      item ∈ grammar.items earlier.size := mem_items_of_reached exact seeds reached
  obtain ⟨found, scanned, ends⟩ := Scan.exists_ends inside distinct
  exact {
    descends := Worklist.acc_turn inside (Worklist.sound_start _ items)
    scanned := ⟨found, scanned, found.reverse_perm.symm.trans (perm_close exact seeds ends)⟩
    roomy := saturate_add inside (grammar.length_items earlier.size).le
    length_le := length_close_le exact seeds
    inRange := fun list passes item present =>
      have range := Grammar.mem_items.mp (inside item (passes.reached present))
      ⟨range, completes range⟩ }

end Column

namespace Session

variable {session : Session grammar}

/-- The columns behind a checkpoint are dropped, but never the one before any token. -/
theorem columns_rewind (session : Session grammar) (checkpoint : Nat) :
    (session.rewind checkpoint).columns = session.columns.take (checkpoint + 1) := by
  unfold rewind
  split
  case h_1 column found =>
    obtain ⟨inside, rfl⟩ := Array.getElem?_eq_some_iff.mp found
    calc
      _ = session.earlier.take (checkpoint + 1) := Array.push_extract_getElem inside
      _ = _ := (Array.extract_push_of_le inside).symm
  case h_2 missing =>
    have ahead : session.earlier.size ≤ checkpoint := Array.getElem?_eq_none_iff.mp missing
    refine (Array.extract_eq_self_of_le ?_).symm
    rw [session.size_columns]
    exact Nat.succ_le_succ ahead

theorem nodup_start (grammar : Grammar) (start : Name) :
    ((grammar.alternatives start).map (⟨·, 0, 0⟩ : Nat → Item)).Nodup :=
  (grammar.pairwise_alternatives start).nodup.map fun _ _ same => congrArg Item.production same

theorem closing_start (grammar : Grammar) (start : Name) :
    Column.Closing grammar #[] ((grammar.alternatives start).map (⟨·, 0, 0⟩)) :=
  Column.closing (.empty grammar start []) (Column.seeds_start grammar start []) (nodup_start grammar start)

theorem Reads.closing_scanned (reads : Reads grammar start tokens session) (token : String) :
    Column.Closing grammar session.columns (session.scanned token) := by
  obtain ⟨exact, seeds⟩ := reads.exactChart.scanned token
  exact Column.closing exact seeds (Item.nodup_filterMap_over? (reads.nodup_column reads.columns_length) _)

theorem Reads.bounds (reads : Reads grammar start tokens session) {place : Nat} {column : Column}
    (found : session.columns[place]? = some column) :
    column.length ≤ (place + 1) * (grammar.productions.toList.map (·.body.length + 1)).sum ∧
      ∀ item ∈ column, item.InRange grammar place := by
  obtain ⟨exact, seeds⟩ := reads.closing (reads.le_length found)
  have size : (session.columns.take place).size = place := by
    have inside := (Array.getElem?_eq_some_iff.mp found).1
    rw [Array.take, Array.size_extract]
    omega
  have closed := reads.eq_close found
  refine ⟨?_, fun item member => ?_⟩
  · have length := Column.length_close_le exact seeds
    rwa [← closed, size] at length
  · have range := Column.inRange_of_mem_close exact seeds (closed ▸ member)
    rwa [size] at range

/-- Closing a column always ends, within bounds. The first column is closed over no columns at all, and every other one,
whatever a session has been called with and whatever the next token is, over those that the session has. Each of them
has at most as many items as there are dotted productions with an origin up to its place, and they are in range. There
is a column for every place up to the current one, so there is at least one, and a rewind keeps at least one. -/
theorem closing_ends {productions : List Production} {grammar : Grammar}
    (built : Grammar.ofProductions productions = .ok grammar) (start : Name) :
    (Column.Closing grammar #[] ((grammar.alternatives start).map (⟨·, 0, 0⟩)) ∧
      ∀ initial, ofStart grammar start = .ok initial →
        initial.columns = #[Column.close grammar #[] ((grammar.alternatives start).map (⟨·, 0, 0⟩))]) ∧
    ∀ session, Reachable grammar start session →
      (session.consumed + 1 = session.columns.size ∧ session.columns[session.consumed]? = some session.current) ∧
      (∀ checkpoint, (session.rewind checkpoint).columns = session.columns.take (checkpoint + 1) ∧
        0 < (session.rewind checkpoint).columns.size) ∧
      (∀ place column, session.columns[place]? = some column →
        column.length ≤ (place + 1) * (productions.map (·.body.length + 1)).sum ∧
        ∀ item ∈ column, item.InRange grammar place) ∧
      ∀ token, Column.Closing grammar session.columns (session.scanned token) ∧
        ∀ after, session.advance token = .ok after →
          after.columns = session.columns.push (Column.close grammar session.columns (session.scanned token)) := by
  have same := Grammar.productions_of_ofProductions built
  subst same
  refine ⟨⟨closing_start grammar start, fun initial opened => ?_⟩, fun session reachable => ?_⟩
  · unfold ofStart at opened
    split at opened <;> cases opened
    rfl
  obtain ⟨tokens, reads⟩ := reachable.exists_reads
  refine ⟨⟨session.size_columns.symm, session.columns_consumed⟩, fun checkpoint => ⟨columns_rewind session checkpoint, ?_⟩,
    fun place column => reads.bounds, fun token => ⟨reads.closing_scanned token, fun after advanced => ?_⟩⟩
  · rw [size_columns]
    exact Nat.succ_pos _
  · obtain ⟨-, rfl⟩ := advance_eq_ok_iff.mp advanced
    exact columns_following session token

/-- Behind a one of an ambiguous and cyclic sum. -/
theorem closing_sums : ∃ grammar session column, Grammar.ofProductions sums = .ok grammar ∧
    Reachable grammar (.given "sum") session ∧ session.columns[1]? = some column ∧ column.length ≤ 22 ∧
    (∀ item ∈ column, item.InRange grammar 1) ∧ Column.Closing grammar session.columns (session.scanned "1") := by
  have built := Grammar.ofProductions_of_complete complete_sums
  have unit : ⟨.given "sum", [.terminal "1"]⟩ ∈ sums := by decide
  have one : Derives sums [.nonterminal (.given "sum")] ["1"] := .of_body unit (.spell ["1"])
  have heads : ∃ production ∈ (Grammar.ofComplete sums complete_sums).productions.toList,
      production.head = .given "sum" := ⟨_, unit, rfl⟩
  obtain ⟨initial, opened⟩ := exists_initial heads
  have legal := (Reads.fresh opened).mem_legal_iff.mpr (.of_derives one)
  have reachable := (Reachable.fresh opened).advance (advance_of_legal legal)
  obtain ⟨⟨size, last⟩, -, bounds, closes⟩ := (closing_ends built (.given "sum")).2 _ reachable
  rw [consumed_following, (Reads.fresh opened).consumed_eq] at last
  obtain ⟨length, ranges⟩ := bounds 1 _ last
  exact ⟨_, _, _, built, reachable, last, length, ranges, (closes "1").1⟩

end Session

end Viable
