import Mathlib.Data.DFinsupp.WellFounded
import Viable.Proofs.Grammar.Table
import Viable.Proofs.Settling
import Viable.Sampling

/-! Heights found in place. Passes over the productions note the heights that follow from those noted before, for names
and for productions at once. A height that is noted first may be too great and is lowered later. In the end every noted
height is the least one, and it is the height that the rounds find. -/

namespace Viable

variable {productions others : List Production} {production : Production} {name : Name} {body : Body}

/-- The heights of the derivations that apply the production at their root. -/
def rootHeights (productions : List Production) (production : Production) : Set Nat :=
  {height | ∃ (member : production ∈ productions) (children : Derivation productions production.body),
    (Derivation.node production.head production member rfl children .nil).height = height}

/-- More productions leave a derivation as it is. -/
theorem Finishes.mono (inside : productions ⊆ others) {bound : Nat} (finishes : Finishes productions bound body) :
    Finishes others bound body := by
  obtain ⟨tree, low⟩ := finishes
  induction tree generalizing bound with
  | nil => exact ⟨.nil, low⟩
  | terminal text rest ih =>
    obtain ⟨copy, copyLow⟩ := ih low
    exact ⟨.terminal text copy, copyLow⟩
  | node name production member heads children rest ihChildren ihRest =>
    obtain ⟨lowChildren, lowRest⟩ := Nat.max_le.mp low
    obtain ⟨copy, copyLow⟩ := ihChildren le_rfl
    obtain ⟨copyRest, copyRestLow⟩ := ihRest lowRest
    exact ⟨.node name production (inside member) heads copy copyRest,
      max_le ((Nat.succ_le_succ copyLow).trans lowChildren) copyRestLow⟩

theorem isLeast_rootHeights_iff (member : production ∈ productions) {height : Nat} :
    IsLeast (rootHeights productions production) (height + 1) ↔
      IsLeast {bound | Finishes productions bound production.body} height := by
  have root (children : Derivation productions production.body) :
      (Derivation.node production.head production member rfl children .nil).height = children.height + 1 := by
    simp [Derivation.height]
  constructor
  · intro isLeast
    obtain ⟨⟨_, children, same⟩, least⟩ := isLeast
    rw [root, Nat.add_right_cancel_iff] at same
    refine ⟨⟨children, same.le⟩, fun bound finishes => ?_⟩
    obtain ⟨other, low⟩ := finishes
    have higher := least ⟨member, other, root other⟩
    omega
  · intro isLeast
    obtain ⟨⟨children, low⟩, least⟩ := isLeast
    have high := least ⟨children, le_rfl⟩
    refine ⟨⟨member, children, ?_⟩, fun other attained => ?_⟩
    · rw [root]
      omega
    · obtain ⟨_, children, rfl⟩ := attained
      rw [root]
      exact Nat.succ_le_succ (least ⟨children, le_rfl⟩)

/-- The heights of names that are known are their least heights, and none is missing. -/
def Heights.Least (productions : List Production) (known : Heights) : Prop :=
  ∀ name least, known.lookup name = some least ↔ LeastHeight productions name least

theorem least_heightsOf (productions : List Production) : Heights.Least productions (heightsOf productions) :=
  lookup_heightsOf_iff

namespace Heights.Least

variable {known : Heights} (exact : known.Least productions)
include exact

theorem exists_tallest?_le_iff {names : List Name} {bound : Nat} :
    (∃ tallest ≤ bound, known.tallest? names = some tallest) ↔
      ∀ name ∈ names, Finishes productions bound [.nonterminal name] := by
  rw [Heights.exists_tallest?_le_iff]
  refine forall₂_congr fun name _ => ?_
  constructor
  · intro found
    obtain ⟨least, low, same⟩ := found
    obtain ⟨tree, small⟩ := ((exact name least).mp same).1
    exact ⟨tree, small.trans low⟩
  · intro finishes
    obtain ⟨least, low, isLeast⟩ := exists_leastHeight finishes
    exact ⟨least, low, (exact name least).mpr isLeast⟩

theorem tallest?_eq_some_iff {height : Nat} : known.tallest? production.references = some height ↔
    IsLeast {bound | Finishes productions bound production.body} height := by
  have within {bound : Nat} : (∃ tallest ≤ bound, known.tallest? production.references = some tallest) ↔
      Finishes productions bound production.body :=
    exact.exists_tallest?_le_iff.trans finishes_iff_references.symm
  constructor
  · intro same
    refine ⟨within.mp ⟨height, le_rfl, same⟩, fun bound finishes => ?_⟩
    obtain ⟨tallest, low, found⟩ := within.mpr finishes
    cases same.symm.trans found
    exact low
  · intro isLeast
    obtain ⟨tallest, low, same⟩ := within.mpr isLeast.1
    have high := isLeast.2 (within.mp ⟨tallest, le_rfl, same⟩)
    rw [same, Nat.le_antisymm low high]

/-- One more than the tallest name of the body is the least height of a derivation with the production at its root. -/
theorem height?_eq_some_iff (member : production ∈ productions) {height : Nat} :
    production.height? known = some height ↔ IsLeast (rootHeights productions production) height := by
  rw [Production.height?, Option.map_eq_some_iff]
  constructor
  · intro found
    obtain ⟨tallest, same, rfl⟩ := found
    exact (isLeast_rootHeights_iff member).mpr (exact.tallest?_eq_some_iff.mp same)
  · intro isLeast
    obtain ⟨_, children, same⟩ := isLeast.1
    obtain ⟨lower, rfl⟩ : ∃ lower, height = lower + 1 := ⟨height - 1, by simp [Derivation.height] at same; omega⟩
    exact ⟨lower, exact.tallest?_eq_some_iff.mpr ((isLeast_rootHeights_iff member).mp isLeast), rfl⟩

/-- A production has a height if its body derives anything at all. -/
theorem height?_isSome_iff :
    (production.height? known).isSome ↔ ∃ tokens, Derives productions production.body tokens := by
  rw [Production.height?, Option.isSome_map, Option.isSome_iff_exists]
  constructor
  · intro found
    obtain ⟨height, same⟩ := found
    obtain ⟨tree, _⟩ := (exact.tallest?_eq_some_iff.mp same).1
    exact ⟨tree.tokens, tree, rfl⟩
  · intro derives
    obtain ⟨_, tree, _⟩ := derives
    have finishes : Finishes productions tree.height production.body := ⟨tree, le_rfl⟩
    obtain ⟨height, _, same⟩ := exact.exists_tallest?_le_iff.mpr (finishes_iff_references.mp finishes)
    exact ⟨height, same⟩

/-- Terminals and empty bodies count nothing. -/
theorem tallest?_eq_foldr {least : Name → Nat} {names : List Name}
    (heights : ∀ name ∈ names, LeastHeight productions name (least name)) :
    known.tallest? names = some ((names.map least).foldr max 0) := by
  induction names with
  | nil => rfl
  | cons name names ih =>
    rw [List.forall_mem_cons] at heights
    have found := (exact name (least name)).mpr heights.1
    rw [Heights.tallest?, found, ih heights.2]
    rfl

/-- The heights of productions are the same over any list of the same productions. -/
theorem height?_eq {other : Heights} (exactOther : other.Least others)
    (same : ∀ production, production ∈ others ↔ production ∈ productions) (production : Production) :
    production.height? other = production.height? known := by
  have finishes (bound : Nat) : Finishes others bound production.body ↔ Finishes productions bound production.body :=
    ⟨.mono fun production => (same production).mp, .mono fun production => (same production).mpr⟩
  have tallest : other.tallest? production.references = known.tallest? production.references := by
    refine Option.ext fun height => ?_
    rw [exact.tallest?_eq_some_iff, exactOther.tallest?_eq_some_iff]
    simp only [finishes]
  rw [Production.height?, Production.height?, tallest]

end Heights.Least

section note

variable {κ : Type} [DecidableEq κ]

/-- A height is noted where none is known so far, or a greater one. What is noted last counts. -/
def note (key : κ) (height : Nat) (known : List (κ × Nat)) : List (κ × Nat) :=
  if (known.lookup key).all (height < ·) then (key, height) :: known else known

/-- What is known for a key, where a missing height is above all others. -/
def level (known : List (κ × Nat)) (key : κ) : WithTop Nat := known.lookup key

theorem lookup_cons_eq (key other : κ) (height : Nat) (known : List (κ × Nat)) :
    ((key, height) :: known).lookup other = if other = key then some height else known.lookup other := by
  rw [List.lookup_cons]
  by_cases same : other = key
  · rw [if_pos same, beq_iff_eq.mpr same]
  · rw [if_neg same, beq_eq_false_iff_ne.mpr same]

theorem note_cases (key : κ) (height : Nat) (known : List (κ × Nat)) :
    note key height known = known ∧ (∃ lower ≤ height, known.lookup key = some lower) ∨
      note key height known = (key, height) :: known ∧ WithTop.some height < level known key := by
  unfold note level
  cases known.lookup key with
  | none => exact .inr ⟨rfl, WithTop.coe_lt_top height⟩
  | some lower =>
    by_cases below : height < lower
    · exact .inr ⟨by simp [below], WithTop.coe_lt_coe.mpr below⟩
    · exact .inl ⟨by simp [below], lower, Nat.not_lt.mp below, rfl⟩

/-- What is known afterwards has been noted, or was known before. -/
theorem lookup_note_cases {key other : κ} {height value : Nat} {known : List (κ × Nat)}
    (found : (note key height known).lookup other = some value) :
    (other = key ∧ value = height) ∨ known.lookup other = some value := by
  rcases note_cases key height known with kept | noted
  · exact .inr (kept.1 ▸ found)
  · rw [noted.1, lookup_cons_eq] at found
    split at found
    case isTrue same => exact .inl ⟨same, (Option.some.inj found).symm⟩
    case isFalse => exact .inr found

/-- If nothing has been noted, the height was known before, or a lower one. -/
theorem exists_le_of_note_eq {key : κ} {height : Nat} {known : List (κ × Nat)} (same : note key height known = known) :
    ∃ lower ≤ height, known.lookup key = some lower := by
  rcases note_cases key height known with kept | noted
  · exact kept.2
  · have longer := noted.1.symm.trans same
    simp at longer

theorem level_note_le (key other : κ) (height : Nat) (known : List (κ × Nat)) :
    level (note key height known) other ≤ level known other := by
  rcases note_cases key height known with kept | noted
  · rw [kept.1]
  · rw [noted.1, level, lookup_cons_eq]
    split
    case isTrue same => exact same ▸ noted.2.le
    case isFalse => exact le_rfl

/-- What is noted lowers the level of its key. -/
theorem note_eq_or_lt (key : κ) (height : Nat) (known : List (κ × Nat)) :
    note key height known = known ∨ level (note key height known) key < level known key := by
  refine (note_cases key height known).imp And.left fun noted => ?_
  rw [noted.1, level, lookup_cons_eq, if_pos rfl]
  exact noted.2

end note

/-- The heights that a search has noted so far, for names and for the productions at some positions. -/
structure Estimates where
  names : Heights
  positions : List (Nat × Nat)
deriving DecidableEq

namespace Estimates

def none : Estimates := ⟨[], []⟩

/-- Notes the height that a production has by the heights of the names in its body, once they are all known. -/
def revise (entry : Production × Nat) (estimates : Estimates) : Estimates :=
  match entry.1.height? estimates.names with
  | some height => ⟨note entry.1.head height estimates.names, note entry.2 height estimates.positions⟩
  | .none => estimates

/-- The levels of a production and of its head, position by position. -/
def levels (productions : List Production) (estimates : Estimates) :
    Fin productions.length → WithTop Nat × WithTop Nat := fun position =>
  (level estimates.names productions[position].head, level estimates.positions position.val)

theorem lowers_revise (productions : List Production) : Lowers revise productions.zipIdx (levels productions) := by
  intro entry member estimates
  obtain ⟨production, position⟩ := entry
  have present := List.mk_mem_zipIdx_iff_getElem?.mp member
  obtain ⟨inside, rfl⟩ := List.getElem?_eq_some_iff.mp present
  unfold revise
  cases found : productions[position].height? estimates.names with
  | none => exact .inl rfl
  | some height =>
    have lower : levels productions ⟨note productions[position].head height estimates.names,
        note position height estimates.positions⟩ ≤ levels productions estimates := fun other =>
      ⟨level_note_le .., level_note_le ..⟩
    rcases note_eq_or_lt productions[position].head height estimates.names with sameName | lowerName
    · rcases note_eq_or_lt position height estimates.positions with samePosition | lowerPosition
      · exact .inl (by simp only [sameName, samePosition])
      · exact .inr (Pi.lt_def.mpr ⟨lower, ⟨position, inside⟩, Prod.lt_iff.mpr (.inr ⟨level_note_le .., lowerPosition⟩)⟩)
    · exact .inr (Pi.lt_def.mpr ⟨lower, ⟨position, inside⟩, Prod.lt_iff.mpr (.inl ⟨lowerName, level_note_le ..⟩)⟩)

/-- Everything that has been noted is the height of some derivation, or above one. -/
structure Sound (productions : List Production) (estimates : Estimates) : Prop where
  names : ∀ name height, estimates.names.lookup name = some height → Finishes productions height [.nonterminal name]
  positions : ∀ position height, estimates.positions.lookup position = some height →
    ∃ production, productions[position]? = some production ∧
      ∃ lower, height = lower + 1 ∧ Finishes productions lower production.body

theorem sound_none (productions : List Production) : Sound productions none :=
  ⟨fun _ _ absent => absurd absent (by simp [none]), fun _ _ absent => absurd absent (by simp [none])⟩

namespace Sound

variable {estimates : Estimates}

theorem finishes_body (sound : Sound productions estimates) {height : Nat}
    (found : production.height? estimates.names = some height) :
    ∃ lower, height = lower + 1 ∧ Finishes productions lower production.body := by
  obtain ⟨tallest, same, rfl⟩ := Option.map_eq_some_iff.mp found
  refine ⟨tallest, rfl, finishes_iff_references.mpr fun name mentioned => ?_⟩
  obtain ⟨lower, low, known⟩ := Heights.exists_tallest?_le_iff.mp ⟨tallest, le_rfl, same⟩ name mentioned
  obtain ⟨tree, small⟩ := sound.names name lower known
  exact ⟨tree, small.trans low⟩

theorem revise (entry : Production × Nat) (member : entry ∈ productions.zipIdx) (estimates : Estimates)
    (sound : Sound productions estimates) : Sound productions (estimates.revise entry) := by
  obtain ⟨production, position⟩ := entry
  have present := List.mk_mem_zipIdx_iff_getElem?.mp member
  unfold Estimates.revise
  cases found : production.height? estimates.names with
  | none => exact sound
  | some height =>
    obtain ⟨lower, same, body⟩ := sound.finishes_body found
    refine ⟨fun name other known => ?_, fun place other known => ?_⟩
    · rcases lookup_note_cases known with ⟨rfl, rfl⟩ | before
      · exact finishes_nonterminal_iff.mpr ⟨production, List.mem_of_getElem? present, rfl, lower, same, body⟩
      · exact sound.names name other before
    · rcases lookup_note_cases known with ⟨rfl, rfl⟩ | before
      · exact ⟨production, present, lower, same, body⟩
      · exact sound.positions place other before

end Sound

/-- Nothing is left to be noted. -/
def Stable (productions : List Production) (estimates : Estimates) : Prop :=
  ∀ entry ∈ productions.zipIdx, estimates.revise entry = estimates

namespace Stable

variable {estimates : Estimates} {position height : Nat}

/-- What follows from the noted heights has been noted already, with the same height or a lower one. -/
theorem exists_le (stable : Stable productions estimates) (present : productions[position]? = some production)
    (found : production.height? estimates.names = some height) :
    (∃ lower ≤ height, estimates.names.lookup production.head = some lower) ∧
      ∃ lower ≤ height, estimates.positions.lookup position = some lower := by
  have same := stable (production, position) (List.mk_mem_zipIdx_iff_getElem?.mpr present)
  simp only [revise, found] at same
  exact ⟨exists_le_of_note_eq (congrArg Estimates.names same), exists_le_of_note_eq (congrArg Estimates.positions same)⟩

theorem exists_height? (names : ∀ name ∈ production.references, ∃ lower ≤ height, estimates.names.lookup name = some lower) :
    ∃ lower ≤ height + 1, production.height? estimates.names = some lower := by
  obtain ⟨tallest, low, same⟩ := Heights.exists_tallest?_le_iff.mpr names
  exact ⟨tallest + 1, Nat.succ_le_succ low, by rw [Production.height?, same, Option.map_some]⟩

/-- No derivation is lower than what has been noted for its name. -/
theorem exists_le_of_finishes (stable : Stable productions estimates)
    (finishes : Finishes productions height [.nonterminal name]) :
    ∃ lower ≤ height, estimates.names.lookup name = some lower := by
  induction height generalizing name with
  | zero =>
    obtain ⟨_, _, _, _, impossible, _⟩ := finishes_nonterminal_iff.mp finishes
    omega
  | succ height ih =>
    obtain ⟨production, member, rfl, lower, same, body⟩ := finishes_nonterminal_iff.mp finishes
    obtain rfl : height = lower := by omega
    obtain ⟨position, present⟩ := List.getElem?_of_mem member
    obtain ⟨own, low, found⟩ := exists_height? fun name mentioned => ih (finishes_iff_references.mp body name mentioned)
    obtain ⟨⟨least, lowest, noted⟩, -⟩ := stable.exists_le present found
    exact ⟨least, lowest.trans low, noted⟩

theorem least_names (stable : Stable productions estimates) (sound : Sound productions estimates) :
    estimates.names.Least productions := by
  intro name least
  constructor
  · intro noted
    refine ⟨sound.names name least noted, fun bound finishes => ?_⟩
    obtain ⟨lower, low, same⟩ := stable.exists_le_of_finishes finishes
    cases noted.symm.trans same
    exact low
  · intro isLeast
    obtain ⟨lower, low, same⟩ := stable.exists_le_of_finishes isLeast.1
    have high := isLeast.2 (sound.names name lower same)
    rw [same, Nat.le_antisymm low high]

/-- A height that has been noted for a position is the one that follows for the production there. -/
theorem height?_of_noted (stable : Stable productions estimates) (sound : Sound productions estimates)
    (noted : estimates.positions.lookup position = some height) :
    ∃ production, productions[position]? = some production ∧ production.height? estimates.names = some height := by
  obtain ⟨production, present, lower, rfl, body⟩ := sound.positions position height noted
  obtain ⟨own, low, found⟩ := exists_height? fun name mentioned =>
    stable.exists_le_of_finishes (finishes_iff_references.mp body name mentioned)
  obtain ⟨-, least, lowest, same⟩ := stable.exists_le present found
  cases noted.symm.trans same
  exact ⟨production, present, by rw [found, Nat.le_antisymm low lowest]⟩

theorem lookup_positions (stable : Stable productions estimates) (sound : Sound productions estimates) (position : Nat) :
    estimates.positions.lookup position = productions[position]?.bind (·.height? estimates.names) := by
  refine Option.ext fun height => ?_
  rw [Option.bind_eq_some_iff]
  constructor
  · exact stable.height?_of_noted sound
  · intro computed
    obtain ⟨production, present, found⟩ := computed
    obtain ⟨-, least, _, noted⟩ := stable.exists_le present found
    obtain ⟨other, presentOther, same⟩ := stable.height?_of_noted sound noted
    cases present.symm.trans presentOther
    rw [noted, ← same, found]

end Stable

/-- The passes end with the least heights of the names, and with the heights of the productions that follow from them. -/
theorem of_settles {found : Estimates} (settles : Settles revise productions.zipIdx none found) :
    found.names.Least productions ∧
      ∀ position, found.positions.lookup position = productions[position]?.bind (·.height? found.names) := by
  have sound := settles.keeps Sound.revise (sound_none productions)
  have stable : Stable productions found := settles.stable (lowers_revise productions)
  exact ⟨stable.least_names sound, stable.lookup_positions sound⟩

end Estimates

namespace Grammar

/-- The height of the production at a position. -/
def heightAt? (grammar : Grammar) (position : Nat) : Option Nat :=
  grammar.productions[position]?.bind (·.height? grammar.heights)

variable {grammar other : Grammar}

theorem least_heights (grammar : Grammar) : grammar.heights.Least grammar.productions.toList :=
  grammar.heights_eq ▸ least_heightsOf _

theorem heightAt?_eq {position : Nat} (present : grammar.productions.toList[position]? = some production) :
    grammar.heightAt? position = production.height? grammar.heights := by
  rw [Array.getElem?_toList] at present
  rw [heightAt?, present, Option.bind_some]

/-- Sampling chooses among the alternatives that have a height, and by these heights. -/
theorem map_height_candidates (grammar : Grammar) (name : Name) :
    (grammar.candidates name).map (·.height) = (grammar.alternatives name).filterMap grammar.heightAt? := by
  rw [candidates, List.map_filterMap]
  refine List.filterMap_congr fun position alternative => ?_
  obtain ⟨production, present, heads⟩ := mem_alternatives.mp alternative
  obtain ⟨inside, rfl⟩ := Array.getElem?_eq_some_iff.mp present
  rw [heightAt?, present, Option.bind_some, dif_pos inside, dif_pos heads, Option.map_map]
  exact Option.map_id_apply

/-- The heights of the productions are exact. The passes that note and lower heights end, and for each position they end
with the height that sampling goes by: the least height of the derivations that apply the production at their root,
which is one more than the greatest least height of a name in its body. A production has a height if its body derives
anything, and there are no others. A height depends on the production and on what the productions are, but not on their
order. -/
theorem heightAt?_exact {productions : List Production} {grammar : Grammar}
    (built : ofProductions productions = .ok grammar) :
    (∃ found, Settles Estimates.revise productions.zipIdx .none found) ∧
    (∀ found, Settles Estimates.revise productions.zipIdx .none found →
      ∀ position, found.positions.lookup position = grammar.heightAt? position) ∧
    (∀ name, (grammar.candidates name).map (·.height) = (grammar.alternatives name).filterMap grammar.heightAt?) ∧
    (∀ position production, productions[position]? = some production →
      (∀ height, grammar.heightAt? position = some height ↔ IsLeast (rootHeights productions production) height) ∧
      ((grammar.heightAt? position).isSome ↔ ∃ tokens, Derives productions production.body tokens) ∧
      ∀ least : Name → Nat, (∀ name ∈ production.references, LeastHeight productions name (least name)) →
        grammar.heightAt? position = some ((production.references.map least).foldr max 0 + 1)) ∧
    (∀ position, productions[position]? = none → grammar.heightAt? position = none) ∧
    ∀ others other, ofProductions others = .ok other → (∀ production, production ∈ others ↔ production ∈ productions) →
      ∀ position place, productions[position]? = others[place]? → grammar.heightAt? position = other.heightAt? place := by
  have same := productions_of_ofProductions built
  subst same
  have exact := grammar.least_heights
  refine ⟨exists_settles (Estimates.lowers_revise _) _, fun found settles position => ?_, grammar.map_height_candidates,
    fun position production present => ⟨fun height => ?_, ?_, fun least heights => ?_⟩, fun position absent => ?_,
    fun others other builtOther agree position place sameProduction => ?_⟩
  · obtain ⟨names, positions⟩ := Estimates.of_settles settles
    rw [positions, heightAt?, Array.getElem?_toList]
    simp only [names.height?_eq exact fun _ => Iff.rfl]
  · rw [heightAt?_eq present]
    exact exact.height?_eq_some_iff (List.mem_of_getElem? present)
  · rw [heightAt?_eq present]
    exact exact.height?_isSome_iff
  · rw [heightAt?_eq present, Production.height?, exact.tallest?_eq_foldr heights, Option.map_some]
  · rw [Array.getElem?_toList] at absent
    rw [heightAt?, absent, Option.bind_none]
  · have known := productions_of_ofProductions builtOther
    subst known
    rw [Array.getElem?_toList, Array.getElem?_toList] at sameProduction
    rw [heightAt?, heightAt?, sameProduction]
    simp only [exact.height?_eq other.least_heights agree]

/-- A name whose second production is lower than its first, and between them one that refers to it. Another refers to
itself only. -/
def slopes : List Production :=
  [⟨.given "c", [.terminal "x"]⟩, ⟨.given "b", [.nonterminal (.given "c"), .nonterminal (.given "c")]⟩,
    ⟨.given "a", [.nonterminal (.given "b")]⟩, ⟨.given "d", [.terminal "z", .nonterminal (.given "a")]⟩,
    ⟨.given "a", []⟩, ⟨.given "e", [.nonterminal (.given "e")]⟩]

theorem complete_slopes : Complete slopes := by decide

theorem heightAt?_slopes : ∃ grammar, ofProductions slopes = .ok grammar ∧
    ((pass Estimates.revise slopes.zipIdx .none).positions.lookup 3 = some 4) ∧
    IsLeast (rootHeights slopes ⟨.given "d", [.terminal "z", .nonterminal (.given "a")]⟩) 2 ∧
    grammar.heightAt? 5 = none := by
  have built := ofProductions_of_complete complete_slopes
  obtain ⟨-, noted, -, least, -, -⟩ := heightAt?_exact built
  have settles : Settles Estimates.revise slopes.zipIdx .none
      (pass Estimates.revise slopes.zipIdx (pass Estimates.revise slopes.zipIdx .none)) :=
    .again (by decide) (.again (by decide) (.rest (by decide)))
  have lowered := (noted _ settles 3).symm.trans (by decide : _ = some 2)
  exact ⟨_, built, by decide, ((least 3 _ rfl).1 2).mp lowered, (noted _ settles 5).symm.trans (by decide)⟩

end Grammar

end Viable
