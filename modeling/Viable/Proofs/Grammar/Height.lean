import Mathlib.Data.List.Basic
import Mathlib.Data.List.Perm.Subperm
import Mathlib.Order.Bounds.Basic
import Mathlib.Order.Nat
import Viable.Grammar.Derivation
import Viable.Grammar.Height

/-! The heights that are found round by round are the least heights of derivations, and every name that has
a derivation is found. -/

namespace Viable

/-- Some derivation of the body is no higher than the bound. -/
def Finishes (productions : List Production) (bound : Nat) (body : Body) : Prop :=
  ∃ tree : Derivation productions body, tree.height ≤ bound

/-- No derivation from the name is lower, and one is as low. -/
abbrev LeastHeight (productions : List Production) (name : Name) (height : Nat) : Prop :=
  IsLeast {bound | Finishes productions bound [.nonterminal name]} height

variable {productions : List Production}

theorem finishes_nonterminal_iff {bound : Nat} {name : Name} :
    Finishes productions bound [.nonterminal name] ↔
      ∃ production ∈ productions, production.head = name ∧
        ∃ lower, bound = lower + 1 ∧ Finishes productions lower production.body := by
  constructor
  · intro finishes
    obtain ⟨tree, low⟩ := finishes
    cases tree with
    | node _ production member heads children rest =>
      have below : children.height + 1 ≤ bound := le_trans (le_max_left ..) low
      exact ⟨production, member, heads, bound - 1, by omega, children, by omega⟩
  · intro finishes
    obtain ⟨production, member, heads, lower, rfl, children, low⟩ := finishes
    refine ⟨.node name production member heads children .nil, ?_⟩
    simp only [Derivation.height]
    omega

/-- A body is finished as soon as each of its nonterminals is. -/
theorem finishes_iff_references {bound : Nat} {body : Body} :
    Finishes productions bound body ↔
      ∀ name ∈ body.filterMap Symbol.name?, Finishes productions bound [.nonterminal name] := by
  induction body with
  | nil => simpa using ⟨Derivation.nil, Nat.zero_le bound⟩
  | cons symbol body ih =>
    cases symbol with
    | terminal text =>
      refine Iff.trans ⟨?_, ?_⟩ ih
      · intro finishes
        obtain ⟨_ | ⟨_, rest⟩, low⟩ := finishes
        exact ⟨rest, low⟩
      · intro finishes
        obtain ⟨rest, low⟩ := finishes
        exact ⟨.terminal text rest, low⟩
    | nonterminal name =>
      simp only [List.filterMap_cons, Symbol.name?, List.forall_mem_cons, ← ih]
      constructor
      · intro finishes
        obtain ⟨_ | _ | ⟨_, production, member, heads, children, rest⟩, low⟩ := finishes
        have parts := Nat.max_le.mp low
        exact ⟨⟨.node name production member heads children .nil, max_le parts.1 (Nat.zero_le _)⟩,
          rest, parts.2⟩
      · intro finishes
        obtain ⟨⟨_ | _ | ⟨_, production, member, heads, children, _⟩, low⟩, rest, restLow⟩ := finishes
        exact ⟨.node name production member heads children rest, max_le (Nat.max_le.mp low).1 restLow⟩

theorem exists_leastHeight {bound : Nat} {name : Name} (finishes : Finishes productions bound [.nonterminal name]) :
    ∃ least ≤ bound, LeastHeight productions name least := by
  classical
  have least : LeastHeight productions name _ := Nat.isLeast_find ⟨bound, finishes⟩
  exact ⟨_, least.2 finishes, least⟩

/-- A table answers what it was made with for the names that it was made for. -/
theorem lookup_tabulated {α : Type} (names : List Name) (entry : Name → α) (name : Name) :
    (names.map fun other => (other, entry other)).lookup name = if name ∈ names then some (entry name) else none := by
  by_cases member : name ∈ names
  · rw [if_pos member]
    exact List.lookup_graph entry member
  · rw [if_neg member]
    apply List.lookup_eq_none_iff.mpr
    intro pair present
    obtain ⟨other, listed, rfl⟩ := List.mem_map.mp present
    exact bne_iff_ne.mpr fun same => member (same ▸ listed)

namespace Heights

variable {known : Heights}

theorem tallest?_isSome_iff {names : List Name} :
    (known.tallest? names).isSome ↔ ∀ name ∈ names, (known.lookup name).isSome := by
  induction names with
  | nil => simp [tallest?]
  | cons name names ih =>
    rw [List.forall_mem_cons, ← ih, tallest?]
    cases known.lookup name <;> cases known.tallest? names <;> simp

/-- The greatest height is within a bound when all of them are known and within it. -/
theorem exists_tallest?_le_iff {names : List Name} {bound : Nat} :
    (∃ tallest ≤ bound, known.tallest? names = some tallest) ↔
      ∀ name ∈ names, ∃ height ≤ bound, known.lookup name = some height := by
  induction names with
  | nil => simp [tallest?]
  | cons name names ih =>
    rw [List.forall_mem_cons, ← ih, tallest?]
    constructor
    · intro within
      obtain ⟨tallest, low, same⟩ := within
      split at same
      case h_1 height others known knownOthers =>
        cases same
        exact ⟨⟨height, (le_max_left ..).trans low, known⟩, others, (le_max_right ..).trans low, knownOthers⟩
      case h_2 => cases same
    · intro within
      obtain ⟨⟨height, low, found⟩, others, lowOthers, foundOthers⟩ := within
      exact ⟨max height others, max_le low lowOthers, by rw [found, foundOthers]⟩

theorem mem_ripe {name : Name} :
    name ∈ known.ripe productions ↔ known.lookup name = none ∧
      ∃ production ∈ productions, production.head = name ∧
        ∀ reference ∈ production.references, (known.lookup reference).isSome := by
  simp only [ripe, List.mem_eraseDups, List.mem_map, List.mem_filter, Bool.and_eq_true,
    Option.isNone_iff_eq_none, Production.height?, Option.isSome_map, tallest?_isSome_iff]
  constructor
  · intro ripe
    obtain ⟨production, ⟨member, unknown, finished⟩, rfl⟩ := ripe
    exact ⟨unknown, production, member, rfl, finished⟩
  · intro ripe
    obtain ⟨unknown, production, member, rfl, finished⟩ := ripe
    exact ⟨production, ⟨member, unknown, finished⟩, rfl⟩

/-- Before the round of some height, the lesser heights are known, and nothing else. -/
def Exact (productions : List Production) (height : Nat) (known : Heights) : Prop :=
  ∀ name least, known.lookup name = some least ↔ least < height ∧ LeastHeight productions name least

/-- Nothing that has a derivation is missing. -/
def Full (productions : List Production) (known : Heights) : Prop :=
  ∀ name bound, Finishes productions bound [.nonterminal name] → (known.lookup name).isSome

theorem Exact.isSome_of_finishes {height bound : Nat} (exact : Exact productions height known) {name : Name}
    (finishes : Finishes productions bound [.nonterminal name]) (low : bound < height) :
    (known.lookup name).isSome := by
  obtain ⟨least, below, isLeast⟩ := exists_leastHeight finishes
  exact Option.isSome_of_eq_some ((exact name least).mpr ⟨by omega, isLeast⟩)

theorem Exact.finishes {height : Nat} (exact : Exact productions height known) {name : Name}
    (found : (known.lookup name).isSome) : ∃ lower < height, Finishes productions lower [.nonterminal name] := by
  obtain ⟨least, same⟩ := Option.isSome_iff_exists.mp found
  obtain ⟨low, isLeast⟩ := (exact name least).mp same
  exact ⟨least, low, isLeast.1⟩

/-- What ripens before the round of some height has that least height. -/
theorem Exact.mem_ripe_iff {height : Nat} (exact : Exact productions (height + 1) known) {name : Name} :
    name ∈ known.ripe productions ↔ LeastHeight productions name (height + 1) := by
  rw [mem_ripe]
  constructor
  · intro ripe
    obtain ⟨unknown, production, member, heads, finished⟩ := ripe
    have body : Finishes productions height production.body := by
      apply finishes_iff_references.mpr
      intro reference mentioned
      obtain ⟨lower, low, tree, small⟩ := exact.finishes (finished reference mentioned)
      exact ⟨tree, by omega⟩
    refine ⟨finishes_nonterminal_iff.mpr ⟨production, member, heads, height, rfl, body⟩, fun other finishes => ?_⟩
    by_contra low
    have found := exact.isSome_of_finishes finishes (by omega)
    simp [unknown] at found
  · intro isLeast
    obtain ⟨production, member, heads, lower, same, body⟩ := finishes_nonterminal_iff.mp isLeast.1
    refine ⟨?_, production, member, heads, ?_⟩
    · apply Option.eq_none_iff_forall_not_mem.mpr
      intro other found
      have smaller := (exact name other).mp found
      have least := isLeast.2 smaller.2.1
      omega
    · intro reference mentioned
      apply exact.isSome_of_finishes (finishes_iff_references.mp body reference mentioned)
      omega

theorem Exact.extend {height : Nat} (exact : Exact productions (height + 1) known) :
    Exact productions (height + 2) (known ++ (known.ripe productions).map (·, height + 1)) := by
  intro name least
  rw [List.lookup_append, lookup_tabulated]
  by_cases ripe : name ∈ known.ripe productions
  · have isLeast := exact.mem_ripe_iff.mp ripe
    rw [(mem_ripe.mp ripe).1, if_pos ripe, Option.none_or, Option.some_inj]
    constructor
    · intro same
      subst same
      exact ⟨by omega, isLeast⟩
    · exact fun other => isLeast.unique other.2
  · rw [if_neg ripe, Option.or_none, exact name least]
    constructor
    · exact fun smaller => ⟨by omega, smaller.2⟩
    · intro smaller
      obtain ⟨low, isLeast⟩ := smaller
      have different : least ≠ height + 1 := fun same => ripe (exact.mem_ripe_iff.mpr (same ▸ isLeast))
      exact ⟨by omega, isLeast⟩

/-- When nothing ripens any more, nothing is missing. -/
theorem full_of_ripe_nil (nothing : known.ripe productions = []) : Full productions known := by
  intro name bound
  induction bound generalizing name with
  | zero =>
    intro finishes
    obtain ⟨_, _, _, _, impossible, _⟩ := finishes_nonterminal_iff.mp finishes
    omega
  | succ bound ih =>
    intro finishes
    obtain ⟨production, member, heads, lower, same, body⟩ := finishes_nonterminal_iff.mp finishes
    obtain rfl : bound = lower := by omega
    by_contra unknown
    have finished (reference : Name) (mentioned : reference ∈ production.references) :
        (known.lookup reference).isSome := by
      apply ih
      exact finishes_iff_references.mp body reference mentioned
    have ripe := mem_ripe.mpr ⟨Option.not_isSome_iff_eq_none.mp unknown, production, member, heads, finished⟩
    simp [nothing] at ripe

/-- The productions whose heads are still without a height. -/
def pending (productions : List Production) (known : Heights) : List Production :=
  productions.filter fun production => (known.lookup production.head).isNone

theorem full_of_pending_nil (nothing : known.pending productions = []) : Full productions known := by
  intro name bound finishes
  obtain ⟨production, member, rfl, _⟩ := finishes_nonterminal_iff.mp finishes
  have decided := List.filter_eq_nil_iff.mp nothing production member
  simpa [Option.isSome_iff_ne_none] using decided

theorem length_pending_extend_lt (height : Nat) (something : known.ripe productions ≠ []) :
    ((known ++ (known.ripe productions).map (·, height)).pending productions).length <
      (known.pending productions).length := by
  obtain ⟨name, ripe⟩ := List.exists_mem_of_ne_nil _ something
  obtain ⟨unknown, production, member, rfl, _⟩ := mem_ripe.mp ripe
  have shrinks : (known ++ (known.ripe productions).map (·, height)).pending productions =
      (known.pending productions).filter fun other => other.head ∉ known.ripe productions := by
    simp only [pending, List.filter_filter, List.lookup_append, lookup_tabulated]
    refine List.filter_congr fun other _ => ?_
    by_cases member : other.head ∈ known.ripe productions <;> simp [member]
  rw [shrinks, List.length_filter_lt_length_iff_exists]
  exact ⟨production, List.mem_filter.mpr ⟨member, by simp [unknown]⟩, by simpa using ripe⟩

theorem Exact.lookup_iff {height : Nat} (exact : Exact productions height known) (full : Full productions known)
    (name : Name) (least : Nat) : known.lookup name = some least ↔ LeastHeight productions name least := by
  refine ⟨fun found => ((exact name least).mp found).2, fun isLeast => ?_⟩
  obtain ⟨other, found⟩ := Option.isSome_iff_exists.mp (full name least isLeast.1)
  rw [found, ((exact name other).mp found).2.unique isLeast]

/-- The invariant of the rounds: exact so far, and a round left for each pending production. -/
theorem lookup_extend_iff (rounds height : Nat) (known : Heights) (exact : Exact productions (height + 1) known)
    (enough : (known.pending productions).length ≤ rounds) (name : Name) (least : Nat) :
    (extend productions rounds (height + 1) known).lookup name = some least ↔
      LeastHeight productions name least := by
  induction rounds generalizing height known with
  | zero =>
    have nothing := List.length_eq_zero_iff.mp (Nat.le_zero.mp enough)
    exact exact.lookup_iff (full_of_pending_nil nothing) name least
  | succ rounds ih =>
    unfold extend
    split
    case h_1 nothing => exact exact.lookup_iff (full_of_ripe_nil nothing) name least
    case h_2 something =>
      have fewer := length_pending_extend_lt (height + 1) something
      exact ih (height + 1) _ exact.extend (by omega)

theorem exact_nil : Exact productions 1 [] := by
  intro name least
  refine ⟨fun found => absurd found (by simp), fun ⟨low, isLeast⟩ => ?_⟩
  obtain ⟨_, _, _, _, same, _⟩ := finishes_nonterminal_iff.mp isLeast.1
  omega

end Heights

theorem lookup_heightsOf_iff (name : Name) (least : Nat) :
    (heightsOf productions).lookup name = some least ↔ LeastHeight productions name least :=
  Heights.lookup_extend_iff productions.length 0 [] Heights.exact_nil (List.length_filter_le ..) name least

/-- A name that is not of the least possible height has one in the body below it that is one lower. -/
theorem LeastHeight.exists_lower {name : Name} {height : Nat} (isLeast : LeastHeight productions name (height + 2)) :
    ∃ lower, LeastHeight productions lower (height + 1) := by
  obtain ⟨production, member, heads, lower, same, body⟩ := finishes_nonterminal_iff.mp isLeast.1
  obtain rfl : height + 1 = lower := by omega
  by_contra none
  -- Otherwise the whole body is lower, and so is the name.
  have lowBody : Finishes productions height production.body := by
    apply finishes_iff_references.mpr
    intro reference mentioned
    obtain ⟨least, low, leastReference⟩ :=
      exists_leastHeight (finishes_iff_references.mp body reference mentioned)
    have different : least ≠ height + 1 := fun same => none ⟨reference, same ▸ leastReference⟩
    obtain ⟨tree, bounded⟩ := leastReference.1
    exact ⟨tree, by omega⟩
  have smaller := isLeast.2 (finishes_nonterminal_iff.mpr ⟨production, member, heads, height, rfl, lowBody⟩)
  omega

theorem LeastHeight.pos {name : Name} {height : Nat} (isLeast : LeastHeight productions name height) :
    0 < height := by
  obtain ⟨_, _, _, lower, rfl, _⟩ := finishes_nonterminal_iff.mp isLeast.1
  omega

/-- All heights below a least height are least heights as well. -/
theorem LeastHeight.exists_of_le {name : Name} {height : Nat} (isLeast : LeastHeight productions name height)
    {lower : Nat} (positive : 0 < lower) (low : lower ≤ height) :
    ∃ other, LeastHeight productions other lower := by
  induction height, low using Nat.le_induction generalizing name with
  | base => exact ⟨name, isLeast⟩
  | succ height low ih =>
    obtain ⟨height, rfl⟩ : ∃ below, height = below + 1 := ⟨height - 1, by omega⟩
    obtain ⟨other, isLeastOther⟩ := isLeast.exists_lower
    exact ih isLeastOther

/-- No least height exceeds the number of the names that have one. -/
theorem LeastHeight.le_length {name : Name} {height : Nat} (isLeast : LeastHeight productions name height) :
    height ≤ (heightsOf productions).length := by
  have listed : List.range' 1 height ⊆ (heightsOf productions).map (·.2) := by
    intro lower member
    obtain ⟨positive, low⟩ := List.mem_range'_1.mp member
    obtain ⟨other, isLeastOther⟩ := isLeast.exists_of_le positive (by omega)
    have found := (lookup_heightsOf_iff other lower).mpr isLeastOther
    obtain ⟨before, after, same, _⟩ := List.lookup_eq_some_iff.mp found
    exact List.mem_map.mpr ⟨(other, lower), by simp [same], rfl⟩
  have fits := (List.subperm_of_subset List.nodup_range' listed).length_le
  simpa using fits

/-- A name is found with some height if it has a derivation at all. -/
theorem mem_heightsOf_iff (name : Name) :
    name ∈ (heightsOf productions).map (·.1) ↔ Nonempty (Derivation productions [.nonterminal name]) := by
  have found : name ∈ (heightsOf productions).map (·.1) ↔ ((heightsOf productions).lookup name).isSome := by
    rw [List.mem_map, List.lookup_isSome_iff]
    simp only [beq_iff_eq, eq_comm (a := name)]
  rw [found, Option.isSome_iff_exists]
  constructor
  · intro known
    obtain ⟨least, same⟩ := known
    obtain ⟨tree, _⟩ := ((lookup_heightsOf_iff name least).mp same).1
    exact ⟨tree⟩
  · intro derives
    obtain ⟨tree⟩ := derives
    obtain ⟨least, _, isLeast⟩ := exists_leastHeight ⟨tree, le_refl tree.height⟩
    exact ⟨least, (lookup_heightsOf_iff name least).mpr isLeast⟩

end Viable
