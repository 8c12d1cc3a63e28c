import Mathlib.Data.Prod.Lex
import Viable.Proofs.Grammar.Reachable

/-! Which production lists are no grammars, and what is reported about them: each place where a nonterminal
without productions is mentioned, once, and in the order of the heads, of their productions, and of the bodies. -/

namespace Viable

/-- The number of productions that a name heads before a position. -/
def rankAt (productions : List Production) (name : Name) (position : Nat) : Nat :=
  (productions.take position).countP (·.head = name)

/-- A place where a production mentions a nonterminal. -/
structure Mention where
  position : Nat
  production : Production
  place : Nat
  name : Name

namespace Mention

/-- The place is one of the list, and what is mentioned there heads no production. -/
structure Dangling (productions : List Production) (mention : Mention) : Prop where
  present : productions[mention.position]? = some mention.production
  written : mention.production.body[mention.place]? = some (.nonterminal mention.name)
  headless : ∀ other ∈ productions, other.head ≠ mention.name

def rank (productions : List Production) (mention : Mention) : Nat :=
  rankAt productions mention.production.head mention.position

/-- What is reported about a place. -/
def reference (productions : List Production) (mention : Mention) : DanglingReference :=
  ⟨mention.production.head, mention.rank productions, mention.name⟩

/-- When the head appears first, then the rank of the production, and then the place in its body. -/
def key (productions : List Production) (mention : Mention) : Nat ×ₗ Nat ×ₗ Nat :=
  toLex ((productions.map (·.head)).idxOf mention.production.head, toLex (mention.rank productions, mention.place))

end Mention

/-- The dangling mentions in one body. -/
def mentionsAt (productions : List Production) (position : Nat) (production : Production) : List Mention :=
  production.body.zipIdx.filterMap fun (symbol, place) =>
    (symbol.name?.filter (· ∉ headsOf productions)).map (⟨position, production, place, ·⟩)

/-- All of them, head by head in order of first appearance, and then by position. -/
def danglingMentions (productions : List Production) : List Mention :=
  (headsOf productions).flatMap fun head =>
    (productions.zipIdx.filter (·.1.head = head)).flatMap fun (production, position) =>
      mentionsAt productions position production

variable {productions : List Production} {name : Name} {mention : Mention}

/-- What comes behind a position does not count for it. -/
theorem rankAt_append {position : Nat} (inside : position ≤ productions.length) (more : List Production)
    (name : Name) : rankAt (productions ++ more) name position = rankAt productions name position := by
  rw [rankAt, List.take_append_of_le_length inside, rankAt]

/-- The rank of a production is its place among the productions of its head. -/
theorem zipIdx_filter_head (productions : List Production) (name : Name) :
    (productions.filter (·.head = name)).zipIdx =
      (productions.zipIdx.filter (·.1.head = name)).map fun entry => (entry.1, rankAt productions name entry.2) := by
  -- The list grows at its end, where the ranks of the productions so far stay as they are.
  induction productions using List.reverseRecOn with
  | nil => rfl
  | append_singleton productions last ih =>
    have earlier : (productions.zipIdx.filter (·.1.head = name)).map
        (fun entry => (entry.1, rankAt (productions ++ [last]) name entry.2)) =
        (productions.filter (·.head = name)).zipIdx := by
      rw [ih]
      refine List.map_congr_left fun entry listed => ?_
      have inside := List.snd_lt_of_mem_zipIdx (List.mem_of_mem_filter listed)
      rw [rankAt_append (by omega)]
    have whole : rankAt (productions ++ [last]) name productions.length = (productions.filter (·.head = name)).length := by
      rw [rankAt_append le_rfl, rankAt, List.take_length, List.countP_eq_length_filter]
    rw [List.filter_append, List.zipIdx_append, List.zipIdx_append, List.filter_append, List.map_append, earlier]
    by_cases heads : last.head = name
    · simp [heads, whole]
    · simp [heads]

/-- Of two productions of one head the later one has the greater rank. -/
theorem rankAt_lt {position later : Nat} {production : Production} (present : productions[position]? = some production)
    (order : position < later) :
    rankAt productions production.head position < rankAt productions production.head later := by
  have counted : rankAt productions production.head (position + 1) =
      rankAt productions production.head position + 1 := by
    rw [rankAt, List.take_add_one, present, List.countP_append, rankAt]
    simp
  calc
    rankAt productions production.head position < rankAt productions production.head (position + 1) := by omega
    _ ≤ rankAt productions production.head later :=
      (List.take_prefix_take_left (by omega)).sublist.countP_le

theorem map_name_mentionsAt (productions : List Production) (position : Nat) (production : Production) :
    (mentionsAt productions position production).map (·.name) =
      production.references.filter (· ∉ headsOf productions) := by
  conv_rhs => rw [Production.references, ← List.zipIdx_map_fst 0 production.body, List.filterMap_map]
  rw [mentionsAt, List.map_filterMap, List.filter_filterMap]
  refine List.filterMap_congr fun entry _ => ?_
  rw [Option.map_map, Function.comp_apply]
  exact Option.map_id_apply

theorem mem_mentionsAt {position : Nat} {production : Production} :
    mention ∈ mentionsAt productions position production ↔ mention.position = position ∧
      mention.production = production ∧ production.body[mention.place]? = some (.nonterminal mention.name) ∧
        mention.name ∉ headsOf productions := by
  rw [mentionsAt, List.mem_filterMap]
  constructor
  · intro listed
    obtain ⟨⟨symbol, place⟩, written, found⟩ := listed
    obtain ⟨name, kept, rfl⟩ := Option.map_eq_some_iff.mp found
    obtain ⟨named, headless⟩ := Option.filter_eq_some_iff.mp kept
    cases symbol with
    | terminal => cases named
    | nonterminal other =>
      cases named
      exact ⟨rfl, rfl, List.mk_mem_zipIdx_iff_getElem?.mp written, by simpa using headless⟩
  · intro placed
    obtain ⟨position, other, place, name⟩ := mention
    obtain ⟨rfl, rfl, written, headless⟩ := placed
    refine ⟨(.nonterminal name, place), List.mk_mem_zipIdx_iff_getElem?.mpr written, ?_⟩
    simpa [Symbol.name?] using headless

theorem map_reference_danglingMentions (productions : List Production) :
    (danglingMentions productions).map (Mention.reference productions) = danglingReferences productions := by
  rw [danglingMentions, danglingReferences, List.map_flatMap]
  refine List.flatMap_congr fun head _ => ?_
  rw [zipIdx_filter_head, List.map_flatMap, List.flatMap_map]
  refine List.flatMap_congr fun entry listed => ?_
  have heads : entry.1.head = head := by simpa using List.of_mem_filter listed
  dsimp only
  rw [← map_name_mentionsAt productions entry.2, List.map_map]
  refine List.map_congr_left fun mention member => ?_
  obtain ⟨position, production, -⟩ := mem_mentionsAt.mp member
  rw [Function.comp_apply, Mention.reference, Mention.rank, position, production, heads]

theorem mem_danglingMentions : mention ∈ danglingMentions productions ↔ mention.Dangling productions := by
  simp only [danglingMentions, List.mem_flatMap, List.mem_filter, Prod.exists, List.mk_mem_zipIdx_iff_getElem?,
    decide_eq_true_eq, mem_mentionsAt]
  constructor
  · intro listed
    obtain ⟨_, _, production, position, ⟨present, rfl⟩, rfl, rfl, written, headless⟩ := listed
    exact ⟨present, written, fun other member same => headless (mem_headsOf.mpr ⟨other, member, same⟩)⟩
  · intro dangling
    have member := List.mem_of_getElem? dangling.present
    refine ⟨_, mem_headsOf.mpr ⟨_, member, rfl⟩, _, _, ⟨dangling.present, rfl⟩, rfl, rfl, dangling.written, ?_⟩
    intro head
    obtain ⟨other, otherMember, same⟩ := mem_headsOf.mp head
    exact dangling.headless other otherMember same

theorem pairwise_zipIdx {α : Type} (list : List α) :
    list.zipIdx.Pairwise fun first second => first.2 < second.2 := by
  rw [← List.pairwise_map (f := Prod.snd) (R := (· < ·)), List.zipIdx_map_snd]
  exact List.pairwise_lt_range'

theorem pairwise_mentionsAt (productions : List Production) (position : Nat) (production : Production) :
    (mentionsAt productions position production).Pairwise fun first second => first.place < second.place := by
  rw [mentionsAt, List.pairwise_filterMap]
  refine (pairwise_zipIdx _).imp fun order first found second foundSecond => ?_
  obtain ⟨_, _, rfl⟩ := Option.map_eq_some_iff.mp found
  obtain ⟨_, _, rfl⟩ := Option.map_eq_some_iff.mp foundSecond
  exact order

namespace Mention

variable {first second : Mention}

theorem key_lt_of_appearance
    (order : (productions.map (·.head)).idxOf first.production.head <
      (productions.map (·.head)).idxOf second.production.head) : first.key productions < second.key productions :=
  Prod.Lex.left _ _ order

theorem key_lt_of_position (present : productions[first.position]? = some first.production)
    (same : first.production.head = second.production.head) (order : first.position < second.position) :
    first.key productions < second.key productions := by
  have ranks : first.rank productions < second.rank productions := by
    rw [rank, rank, ← same]
    exact rankAt_lt present order
  rw [key, key, same]
  exact Prod.Lex.right _ (Prod.Lex.left _ _ ranks)

theorem key_lt_of_place (same : first.production = second.production) (position : first.position = second.position)
    (order : first.place < second.place) : first.key productions < second.key productions := by
  rw [key, key, rank, rank, same, position]
  exact Prod.Lex.right _ (Prod.Lex.right _ order)

end Mention

theorem of_mem_zipIdx_filter_head {head : Name} {entry : Production × Nat}
    (listed : entry ∈ productions.zipIdx.filter (·.1.head = head)) :
    productions[entry.2]? = some entry.1 ∧ entry.1.head = head := by
  obtain ⟨member, heads⟩ := List.mem_filter.mp listed
  exact ⟨List.mem_zipIdx_iff_getElem?.mp member, by simpa using heads⟩

/-- The mentions in the productions of one head are in order. -/
theorem pairwise_mentions_head (productions : List Production) (head : Name) :
    ((productions.zipIdx.filter (·.1.head = head)).flatMap fun (production, position) =>
      mentionsAt productions position production).Pairwise
        fun first second => first.key productions < second.key productions := by
  rw [List.pairwise_flatMap]
  constructor
  case left =>
    intro entry _
    refine (pairwise_mentionsAt productions entry.2 entry.1).imp_of_mem fun inFirst inSecond order => ?_
    obtain ⟨position, production, -⟩ := mem_mentionsAt.mp inFirst
    obtain ⟨positionSecond, productionSecond, -⟩ := mem_mentionsAt.mp inSecond
    exact Mention.key_lt_of_place (production.trans productionSecond.symm) (position.trans positionSecond.symm) order
  case right =>
    refine ((pairwise_zipIdx productions).filter _).imp_of_mem fun {entry other} listed listedOther order => ?_
    intro first inFirst second inSecond
    obtain ⟨position, production, -⟩ := mem_mentionsAt.mp inFirst
    obtain ⟨positionSecond, productionSecond, -⟩ := mem_mentionsAt.mp inSecond
    obtain ⟨present, heads⟩ := of_mem_zipIdx_filter_head listed
    obtain ⟨-, headsOther⟩ := of_mem_zipIdx_filter_head listedOther
    apply Mention.key_lt_of_position
    · rw [position, production, present]
    · rw [production, productionSecond, heads, headsOther]
    · rwa [position, positionSecond]

/-- Each part of the key orders what the parts before it leave open: the heads first, then the productions of one head,
then the places in one body. -/
theorem pairwise_danglingMentions (productions : List Production) :
    (danglingMentions productions).Pairwise fun first second => first.key productions < second.key productions := by
  rw [danglingMentions, List.pairwise_flatMap]
  refine ⟨fun head _ => pairwise_mentions_head productions head, ?_⟩
  refine (inOrderOfAppearance_eraseDups (productions.map (·.head))).imp fun {head other} order => ?_
  intro first inFirst second inSecond
  obtain ⟨entry, listed, here⟩ := List.mem_flatMap.mp inFirst
  obtain ⟨entrySecond, listedSecond, hereSecond⟩ := List.mem_flatMap.mp inSecond
  obtain ⟨-, production, -⟩ := mem_mentionsAt.mp here
  obtain ⟨-, productionSecond, -⟩ := mem_mentionsAt.mp hereSecond
  obtain ⟨-, heads⟩ := of_mem_zipIdx_filter_head listed
  obtain ⟨-, headsSecond⟩ := of_mem_zipIdx_filter_head listedSecond
  apply Mention.key_lt_of_appearance
  rwa [production, productionSecond, heads, headsSecond]

/-- A dangling place is in the production that is found by the head and the rank in its report. -/
theorem Mention.Dangling.getElem?_rank (dangling : mention.Dangling productions) :
    (productions.filter (·.head = mention.production.head))[mention.rank productions]? = some mention.production := by
  have listed : (mention.production, mention.rank productions) ∈
      (productions.filter (·.head = mention.production.head)).zipIdx := by
    rw [zipIdx_filter_head]
    refine List.mem_map.mpr ⟨(mention.production, mention.position), List.mem_filter.mpr ⟨?_, by simp⟩, rfl⟩
    exact List.mk_mem_zipIdx_iff_getElem?.mpr dangling.present
  exact List.mk_mem_zipIdx_iff_getElem?.mp listed

theorem complete_iff : Complete productions ↔ ∀ production ∈ productions, ∀ name,
    .nonterminal name ∈ production.body → ∃ other ∈ productions, other.head = name := by
  simp only [Complete, MentionsOnly, mem_headsOf, Production.mem_references]

/-- There is nothing to report about a grammar, and something about every other list. -/
theorem danglingReferences_eq_nil_iff : danglingReferences productions = [] ↔ Complete productions := by
  rw [← map_reference_danglingMentions, List.map_eq_nil_iff, complete_iff]
  constructor
  · intro nothing production member name mentioned
    by_contra headless
    obtain ⟨position, present⟩ := List.getElem?_of_mem member
    obtain ⟨place, written⟩ := List.getElem?_of_mem mentioned
    have dangling : Mention.Dangling productions ⟨position, production, place, name⟩ :=
      ⟨present, written, fun other otherMember same => headless ⟨other, otherMember, same⟩⟩
    rw [← mem_danglingMentions, nothing] at dangling
    cases dangling
  · intro complete
    apply List.eq_nil_iff_forall_not_mem.mpr
    intro mention listed
    have dangling := mem_danglingMentions.mp listed
    obtain ⟨other, otherMember, same⟩ :=
      complete _ (List.mem_of_getElem? dangling.present) _ (List.mem_of_getElem? dangling.written)
    exact dangling.headless other otherMember same

namespace Grammar

theorem exists_ofProductions_iff : (∃ grammar, ofProductions productions = .ok grammar) ↔ Complete productions := by
  constructor
  · intro built
    obtain ⟨grammar, built⟩ := built
    exact productions_of_ofProductions built ▸ grammar.complete
  · exact fun complete => ⟨_, ofProductions_of_complete complete⟩

theorem errors_of_ofProductions {errors : List DanglingReference} (refused : ofProductions productions = .error errors) :
    errors = danglingReferences productions := by
  unfold ofProductions at refused
  split at refused
  case isTrue => cases refused
  case isFalse => exact (Except.error.inj refused).symm

/-- A list of productions is a grammar if and only if each nonterminal in its bodies heads a production. For any other
list, all dangling references are reported: one for each place where a nonterminal without productions is mentioned,
ordered by the first appearance of the head, the rank of the production, and the place in its body. The location of a
report leads to the production of that head and that rank, and its body mentions the nonterminal. -/
theorem ofProductions_reports (productions : List Production) :
    ((∃ grammar, ofProductions productions = .ok grammar) ↔
      ∀ production ∈ productions, ∀ name, .nonterminal name ∈ production.body →
        ∃ other ∈ productions, other.head = name) ∧
    ∀ errors, ofProductions productions = .error errors →
      (∃ mentions : List Mention, errors = mentions.map (·.reference productions) ∧
        (∀ mention, mention ∈ mentions ↔ mention.Dangling productions) ∧
        mentions.Pairwise fun first second => first.key productions < second.key productions) ∧
      ∀ error ∈ errors, error.location = .production error.head error.rank ∧
        ∃ production, (productions.filter (·.head = error.head))[error.rank]? = some production ∧
          .nonterminal error.name ∈ production.body := by
  constructor
  · rw [exists_ofProductions_iff, complete_iff]
  · intro errors refused
    have reported : errors = (danglingMentions productions).map (·.reference productions) := by
      rw [errors_of_ofProductions refused, ← map_reference_danglingMentions]
    refine ⟨⟨_, reported, fun mention => mem_danglingMentions, pairwise_danglingMentions productions⟩, ?_⟩
    intro error member
    rw [reported] at member
    obtain ⟨mention, listed, rfl⟩ := List.mem_map.mp member
    have dangling := mem_danglingMentions.mp listed
    exact ⟨rfl, mention.production, dangling.getElem?_rank, List.mem_of_getElem? dangling.written⟩

/-- Two heads in turn, and one name twice in a body. -/
def strays : List Production :=
  [⟨.given "b", [.nonterminal (.given "a"), .nonterminal (.fresh 2)]⟩, ⟨.given "a", [.nonterminal (.given "gone")]⟩,
    ⟨.given "b", [.nonterminal (.given "gone"), .terminal "gone", .nonterminal (.given "gone")]⟩]

theorem reports_strays : ∃ (errors : List DanglingReference) (mentions : List Mention),
    ofProductions strays = .error errors ∧
    errors = [⟨.given "b", 0, .fresh 2⟩, ⟨.given "b", 1, .given "gone"⟩, ⟨.given "b", 1, .given "gone"⟩,
      ⟨.given "a", 0, .given "gone"⟩] ∧
    errors = mentions.map (·.reference strays) ∧ ∀ mention ∈ mentions, mention.Dangling strays := by
  have refused : ofProductions strays = .error (danglingReferences strays) := dif_neg (by decide)
  obtain ⟨⟨mentions, same, listed, _⟩, _⟩ := (ofProductions_reports strays).2 _ refused
  exact ⟨_, mentions, refused, by decide, same, fun mention member => (listed mention).mp member⟩

end Grammar

end Viable
