import Viable.Grammar.Builder
import Viable.Proofs.Grammar.Table

/-! Calls of one builder, one after the other: the names they allocate are new to everything before them, and what is
built is what they have added. -/

namespace Viable

/-- The nonterminals that a production mentions, its head among them. -/
def Production.names (production : Production) : List Name := production.head :: production.references

namespace Builder

/-- A request to a builder. -/
inductive Call where
  | fresh
  | choice (bodies : List Body) (head : Option Name)
  | repetition (base iteration : Body) (head : Option Name)
  | union (first second : List Production) (head : Option Name)
  | add (productions : List Production)
  | addOne (head : Name) (body : Body)

/-- What a builder gives back. -/
inductive Answer where
  | name (name : Name)
  | productions (productions : List Production)
  | nothing

def Answer.names : Answer → List Name
  | .name only => [only]
  | .productions listed => listed.flatMap (·.names)
  | .nothing => []

namespace Call

def perform : Call → StateM Builder Answer
  | fresh => .name <$> Builder.fresh
  | choice bodies head => .productions <$> Builder.choice bodies head
  | repetition base iteration head => .productions <$> Builder.repetition base iteration head
  | union first second head => .productions <$> Builder.union first second head
  | add productions => do Builder.add productions; return .nothing
  | addOne head body => do Builder.add [⟨head, body⟩]; return .nothing

/-- The nonterminals that are passed in, as a head or inside a body or a production. -/
def names : Call → List Name
  | fresh => []
  | choice bodies head => head.toList ++ bodies.flatMap (·.filterMap Symbol.name?)
  | repetition base iteration head => head.toList ++ (base ++ iteration).filterMap Symbol.name?
  | union first second head => head.toList ++ (first ++ second).flatMap (·.names)
  | add productions => productions.flatMap (·.names)
  | addOne head body => Production.names ⟨head, body⟩

/-- A new name is asked for, or a combinator gets no head. -/
def headless : Call → Bool
  | fresh => true
  | choice _ head | repetition _ _ head | union _ _ head => head.isNone
  | add _ | addOne _ _ => false

/-- The productions that the call makes part of the grammar. -/
def added : Call → List Production
  | add productions => productions
  | addOne head body => [⟨head, body⟩]
  | fresh | choice _ _ | repetition _ _ _ | union _ _ _ => []

end Call

/-- A call, its answer and the names that were allocated for it. -/
structure Entry where
  call : Call
  answer : Answer
  allocated : List Name

/-- What is recorded of a call. The allocated names are the numbers by which the builder has moved on. -/
def Call.entry (call : Call) (builder : Builder) : Entry where
  call := call
  answer := (call.perform.run builder).1
  allocated := (List.range' builder.next ((call.perform.run builder).2.next - builder.next)).map Name.fresh

/-- Every fresh name that the call passes in has been allocated before. -/
def Call.Entitled (call : Call) (entries : List Entry) : Prop :=
  ∀ number, .fresh number ∈ call.names → .fresh number ∈ entries.flatMap (·.allocated)

/-- The calls of one builder from its creation on. No fresh name is passed in before it has been allocated. -/
inductive Run : List Entry → Builder → Prop
  | start : Run [] empty
  | step {entries : List Entry} {builder : Builder} (run : Run entries builder) (call : Call)
      (entitled : call.Entitled entries) : Run (entries ++ [call.entry builder]) (call.perform.run builder).2

variable {entries : List Entry} {builder : Builder} {call : Call} {name : Name}

/-- The head of what a combinator makes: the one that is given, or else the next fresh name. -/
def headFor (builder : Builder) (head : Option Name) : Name := head.getD (.fresh builder.next)

/-- Without a head the next name is taken for it. -/
theorem headOrFresh_run (head : Option Name) (builder : Builder) : (headOrFresh head).run builder =
    (builder.headFor head, ⟨builder.next + head.isNone.toNat, builder.productions⟩) := by
  cases head <;> rfl

/-- All that a call does to the builder. -/
theorem perform_after (call : Call) (builder : Builder) : (call.perform.run builder).2 =
    ⟨builder.next + call.headless.toNat, builder.productions ++ call.added⟩ := by
  have untouched (next : Nat) : (⟨next, builder.productions⟩ : Builder) = ⟨next, builder.productions ++ []⟩ :=
    congrArg _ (List.append_nil _).symm
  cases call with
  | fresh => exact untouched _
  | choice bodies head => exact (congrArg Prod.snd (headOrFresh_run head builder)).trans (untouched _)
  | repetition base iteration head => exact (congrArg Prod.snd (headOrFresh_run head builder)).trans (untouched _)
  | union first second head => exact (congrArg Prod.snd (headOrFresh_run head builder)).trans (untouched _)
  | add productions => rfl
  | addOne head body => rfl

/-- Where a head is used, it was passed in or it is the next name. -/
theorem mem_of_headed {head : Option Name} {names : List Name}
    (used : name = ((headOrFresh head).run builder).1 ∨ name ∈ names) :
    name ∈ head.toList ++ names ∨ head.isNone ∧ name = .fresh builder.next := by
  rw [headOrFresh_run] at used
  cases head with
  | none => exact used.symm.imp_right fun next => ⟨rfl, next⟩
  | some head => exact .inl (List.mem_cons.mpr used)

/-- Besides what was passed in, an answer mentions the next name at most. -/
theorem mem_names_answer (mentioned : name ∈ (call.perform.run builder).1.names) :
    name ∈ call.names ∨ call.headless ∧ name = .fresh builder.next := by
  cases call with
  | fresh => exact .inr ⟨rfl, List.mem_singleton.mp mentioned⟩
  | choice bodies head =>
    obtain ⟨production, member, named⟩ := List.mem_flatMap.mp mentioned
    obtain ⟨body, present, rfl⟩ := List.mem_map.mp member
    refine mem_of_headed ((List.mem_cons.mp named).imp_right fun inside => ?_)
    exact List.mem_flatMap.mpr ⟨body, present, inside⟩
  | repetition base iteration head =>
    obtain ⟨production, member, named⟩ := List.mem_flatMap.mp mentioned
    have either : name = ((headOrFresh head).run builder).1 ∨ name ∈ (base ++ iteration).filterMap Symbol.name? := by
      obtain rfl | rfl := List.mem_pair.mp member
      · exact (List.mem_cons.mp named).imp_right fun inside => by simp_all [Production.references]
      · obtain head | recursive := List.mem_cons.mp named
        · exact .inl head
        · exact (List.mem_cons.mp recursive).imp_right fun inside => by simp_all
    exact mem_of_headed either
  | union first second head =>
    obtain ⟨production, member, named⟩ := List.mem_flatMap.mp mentioned
    obtain passed | redirected := List.mem_append.mp member
    · exact .inl (List.mem_append_right _ (List.mem_flatMap.mpr ⟨production, passed, named⟩))
    · obtain ⟨redirected, listed, rfl⟩ := List.mem_map.mp redirected
      obtain ⟨production, passed, rfl⟩ := mem_headsOf.mp listed
      refine mem_of_headed ((List.mem_cons.mp named).imp_right fun inside => ?_)
      rw [List.mem_singleton.mp inside]
      exact List.mem_flatMap.mpr ⟨production, passed, List.mem_cons_self⟩
  | add productions => nomatch mentioned
  | addOne head body => nomatch mentioned

/-- What holds at every moment: all that has been allocated or mentioned is below the next number, and the productions
are those that have been added. -/
structure Tidy (entries : List Entry) (builder : Builder) : Prop where
  allocated_lt : ∀ entry ∈ entries, ∀ number, .fresh number ∈ entry.allocated → number < builder.next
  names_lt : ∀ entry ∈ entries, ∀ number,
    .fresh number ∈ entry.call.names ++ entry.answer.names → number < builder.next
  productions_eq : builder.productions = entries.flatMap (·.call.added)

theorem Call.allocated_entry (call : Call) (builder : Builder) :
    (call.entry builder).allocated = if call.headless then [.fresh builder.next] else [] := by
  rw [entry, perform_after]
  cases call.headless <;> simp

/-- A call that mentions nothing but what was allocated keeps the builder tidy. -/
theorem Tidy.step (tidy : Tidy entries builder) (entitled : call.Entitled entries) :
    Tidy (entries ++ [call.entry builder]) (call.perform.run builder).2 := by
  rw [perform_after]
  have passed {number : Nat} (passed : .fresh number ∈ call.names) : number < builder.next + call.headless.toNat := by
    obtain ⟨entry, member, allocated⟩ := List.mem_flatMap.mp (entitled number passed)
    exact Nat.lt_add_right _ (tidy.allocated_lt entry member number allocated)
  constructor
  · intro entry member number allocated
    obtain earlier | rfl := (List.mem_append.mp member).imp_right List.mem_singleton.mp
    · exact Nat.lt_add_right _ (tidy.allocated_lt entry earlier number allocated)
    · rw [Call.allocated_entry] at allocated
      cases headless : call.headless <;> simp_all
  · intro entry member number mentioned
    obtain earlier | rfl := (List.mem_append.mp member).imp_right List.mem_singleton.mp
    · exact Nat.lt_add_right _ (tidy.names_lt entry earlier number mentioned)
    · obtain argument | answered := List.mem_append.mp mentioned
      · exact passed argument
      · obtain argument | ⟨headless, next⟩ := mem_names_answer answered
        · exact passed argument
        · simp_all
  · simp [tidy.productions_eq, Call.entry]

theorem Run.tidy (run : Run entries builder) : Tidy entries builder := by
  induction run with
  | start => exact ⟨fun _ member => (nomatch member), fun _ member => (nomatch member), rfl⟩
  | step _ _ entitled tidy => exact tidy.step entitled

/-- Every entry of a run was recorded after a run of those before it. -/
theorem Run.exists_before {before after : List Entry} {entry : Entry} (run : Run (before ++ entry :: after) builder) :
    ∃ earlier, ∃ call : Call, Run before earlier ∧ entry = call.entry earlier ∧ call.Entitled before := by
  generalize whole : before ++ entry :: after = entries at run
  induction run generalizing after with
  | start => simp at whole
  | @step earlier builder run call entitled ih =>
    obtain rfl | ⟨after, last, rfl⟩ := List.eq_nil_or_concat after
    · obtain ⟨rfl, same⟩ := List.append_inj' whole rfl
      exact ⟨_, _, run, List.singleton_inj.mp same, entitled⟩
    · have whole : (before ++ entry :: after) ++ [last] = earlier ++ [call.entry builder] := by simpa using whole
      exact ih (List.append_inj' whole rfl).1

/-- Whatever is called in whatever order, as long as no fresh name is passed in before it has been allocated: a
request for a name and a combinator without a head allocate exactly one name, and nothing else allocates any. An
allocated name differs from all that were allocated before, and it is mentioned neither in the arguments of the call
nor in the arguments or the answer of an earlier one; an answer mentions nothing but arguments and what was allocated
for it. What is built in the end are the productions that were added, in order. -/
theorem Run.hygienic (run : Run entries builder) :
    (∀ before entry after, entries = before ++ entry :: after →
      entry.allocated.length = (if entry.call.headless then 1 else 0) ∧
      (∀ name ∈ entry.answer.names, name ∈ entry.call.names ∨ name ∈ entry.allocated) ∧
      ∀ name ∈ entry.allocated, name ∉ entry.call.names ∧
        ∀ earlier ∈ before,
          name ∉ earlier.allocated ∧ name ∉ earlier.call.names ∧ name ∉ earlier.answer.names) ∧
    builder.build = Grammar.ofProductions (entries.flatMap (·.call.added)) := by
  refine ⟨?_, congrArg Grammar.ofProductions run.tidy.productions_eq⟩
  rintro before entry after rfl
  obtain ⟨builder, call, earlier, rfl, entitled⟩ := run.exists_before
  have tidy := earlier.tidy
  refine ⟨?_, ?_, ?_⟩
  · rw [Call.allocated_entry]
    cases headless : call.headless <;> simp [Call.entry, headless]
  · intro name answered
    obtain argument | ⟨headless, rfl⟩ := mem_names_answer answered
    · exact .inl argument
    · exact .inr (by simp [Call.allocated_entry, headless])
  · intro name allocated
    rw [Call.allocated_entry] at allocated
    obtain rfl : name = .fresh builder.next := by split at allocated <;> simp_all
    have unallocated : ∀ earlier ∈ before, Name.fresh builder.next ∉ earlier.allocated :=
      fun earlier member allocated => Nat.lt_irrefl _ (tidy.allocated_lt earlier member _ allocated)
    have unmentioned : ∀ earlier ∈ before, Name.fresh builder.next ∉ earlier.call.names ++ earlier.answer.names :=
      fun earlier member mentioned => Nat.lt_irrefl _ (tidy.names_lt earlier member _ mentioned)
    constructor
    · intro argument
      obtain ⟨earlier, member, allocated⟩ := List.mem_flatMap.mp (entitled _ argument)
      exact unallocated earlier member allocated
    · intro earlier member
      have apart := mt List.mem_append.mpr (unmentioned earlier member)
      exact ⟨unallocated earlier member, not_or.mp apart⟩

theorem hygienic_list : ∃ before entry after builder, Run (before ++ entry :: after) builder ∧
    before.map (·.call) = [.fresh, .choice [[.terminal "x"], []] (some (.fresh 1))] ∧
    entry.call = .repetition [.nonterminal (.fresh 1)] [.terminal ","] none ∧ entry.allocated = [.fresh 2] ∧
    (∀ earlier ∈ before,
      .fresh 2 ∉ earlier.allocated ∧ .fresh 2 ∉ earlier.call.names ∧ .fresh 2 ∉ earlier.answer.names) ∧
    after.map (·.call) = [.addOne (.given "list") [.nonterminal (.fresh 2)]] ∧
    builder.build = Grammar.ofProductions [⟨.given "list", [.nonterminal (.fresh 2)]⟩] := by
  have asked : Run [Call.fresh.entry empty] ⟨2, []⟩ := .step .start .fresh fun _ mentioned => nomatch mentioned
  have chosen := asked.step (.choice [[.terminal "x"], []] (some (.fresh 1))) fun _ mentioned => mentioned
  have repeated := chosen.step (.repetition [.nonterminal (.fresh 1)] [.terminal ","] none) fun _ mentioned => mentioned
  have added := repeated.step (.addOne (.given "list") [.nonterminal (.fresh 2)]) fun _ mentioned =>
    List.mem_cons_of_mem (.fresh 1) ((List.mem_cons.mp mentioned).resolve_left nofun)
  obtain ⟨clean, built⟩ := added.hygienic
  obtain ⟨_, _, apart⟩ := clean [_, _] _ [_] rfl
  exact ⟨[_, _], _, [_], _, added, rfl, rfl, rfl, (apart _ (by decide)).2, rfl, built⟩

end Builder

end Viable
