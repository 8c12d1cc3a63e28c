import Viable.Lua.Grammar
import Viable.Proofs.Grammar.Opening
import Viable.Proofs.Grammar.Yield

/-! Where the statements of a chunk begin. A word that can begin nothing but a statement comes behind a
separator or at the top of a block, never directly behind a statement: either the last token rules it out, or
that token is a bracket, and then it would have to be the one around the parameters of a function whose block
is still open. Open blocks are counted, and behind complete statements there are none. -/

namespace Viable.Lua

/-- The words that begin a statement wherever they stand. -/
def statementWords : List String := ["local", "while", "repeat", "if", "for", "return", "break"]

/-- The tokens that only a statement, or the end of a block, can follow. -/
def gates : List String := [";", "then", "else", "do", "repeat"]

/-- The name of the chains of conditions, which the grammar numbers. -/
def conditions : Name := .fresh 3

/-- The names whose token lists can begin with a statement word. -/
def beginners : List Name :=
  [.given "stat", .given "laststat", .given "stats", .given "chunk", .given "block", conditions]

def Begins : Symbol → Bool
  | .terminal text => text ∈ statementWords
  | .nonterminal name => name ∈ beginners

/-- By how much a symbol changes the number of blocks that wait for their `end`. The chains of conditions
leave theirs open, and the bodies of functions close one that has been opened before them. -/
def depth (symbol : Symbol) : Int :=
  if symbol ∈ [.terminal "function", .terminal "do", .terminal "if", .nonterminal conditions] then 1
  else if symbol ∈ [.terminal "end", phrase "funcbody"] then -1
  else 0

theorem balanced_depth : Balanced productions depth := by decide +kernel

/-- What stands in front of a place where a statement can begin, within a production. -/
def Gated (head : Name) : Option Symbol → Bool
  | none => head ∈ beginners
  | some (.terminal text) => text ∈ gates || text = ")" && head = .given "funcbody"
  | some (.nonterminal name) => name = .given "stats"

/-- What is known of a production before one of its symbols: it has closed no block that it has not opened,
the block of a function is open, and statements begin where they may. -/
def Guarded (head : Name) (before : Body) (symbol : Symbol) : Prop :=
  0 ≤ weigh depth before ∧ (symbol = phrase "funcbody" → 0 < weigh depth before) ∧
    (Begins symbol → Gated head before.getLast?)

instance (head : Name) (before : Body) (symbol : Symbol) : Decidable (Guarded head before symbol) :=
  inferInstanceAs (Decidable (_ ∧ _ ∧ _))

theorem guarded_all : ∀ production ∈ productions, ∀ dot < production.body.length,
    ∀ symbol ∈ production.body[dot]?, Guarded production.head (production.body.take dot) symbol := by
  decide +kernel

theorem closedBy_gates : ClosedBy productions (· ∈ gates) [.given "stats"] := by decide +kernel

/-- The names that stand for something which is complete, and does not end with a gate. -/
def wholes : List Name :=
  [.given "digit", .given "letter", .given "number", .fresh 1, .given "Name", .given "exp", .given "prefixexp",
    .given "var", .given "functioncall", .given "args", .given "explist1", .given "namelist", .given "varlist",
    .given "tableconstructor", .given "function", .given "funcbody", .given "stat"]

theorem closedBy_wholes : ClosedBy productions (· ∉ gates) wholes := by decide +kernel

/-- Where a word that begins a statement is found within what a name derives: at its beginning, behind a gate,
or behind the parameters of a function. -/
def Ready (head : Name) (tokens : List String) : Prop :=
  0 ≤ weigh depth (spell tokens) ∧
    (tokens = [] ∧ head ∈ beginners ∨ tokens.getLast?.any (· ∈ gates) ∨
      tokens.getLast?.any (· = ")") ∧ (head = .given "funcbody" ∨ 0 < weigh depth (spell tokens)))

variable {production : Production} {before rest : Body} {symbol : Symbol} {tokens read : List String}

theorem guarded (member : production ∈ productions) (body : production.body = before ++ symbol :: rest) :
    Guarded production.head before symbol := by
  have inside : before.length < production.body.length := by simp [body]
  have found : production.body[before.length]? = some symbol := by simp [body]
  have front : production.body.take before.length = before := by simp [body]
  exact front ▸ guarded_all production member before.length inside symbol found

theorem depth_eq (derives : Derives productions before read) : weigh depth (spell read) = weigh depth before :=
  balanced_depth.weigh_eq derives

/-- The gate in front of a place where a statement begins is the last token of what has been read there. -/
theorem ready_of_gated {head : Name} (balance : 0 ≤ weigh depth before) (gated : Gated head before.getLast?)
    (derives : Derives productions before read) : Ready head read := by
  refine ⟨depth_eq derives ▸ balance, ?_⟩
  cases last : before.getLast? with
  | none =>
    obtain rfl : before = [] := List.getLast?_eq_none_iff.mp last
    rw [last] at gated
    exact .inl ⟨derives.eq_nil, by simpa [Gated] using gated⟩
  | some symbol =>
    rw [last] at gated
    cases symbol with
    | terminal text =>
      have ends {good : String → Bool} (holds : good text) : read.getLast?.any good :=
        (ClosedBy.nil productions good).getLast? derives (by rw [last]; exact holds)
      simp only [Gated, Bool.or_eq_true, Bool.and_eq_true, decide_eq_true_eq] at gated
      rcases gated with gate | ⟨bracket, function⟩
      · exact .inr (.inl (ends (by simpa using gate)))
      · exact .inr (.inr ⟨ends (by simpa using bracket), .inl function⟩)
    | nonterminal name =>
      have closes : before.getLast?.any (Closes (· ∈ gates) [.given "stats"]) := by
        rw [last]
        simpa [Gated, Closes] using gated
      exact .inr (.inl (closedBy_gates.getLast? derives closes))

/-- What is ready within a name is ready behind what comes before the name. -/
theorem Ready.behind {head name : Name} (ready : Ready name tokens)
    (guard : Guarded head before (.nonterminal name)) (derives : Derives productions before read) :
    Ready head (read ++ tokens) := by
  obtain ⟨balance, place⟩ := ready
  obtain ⟨nonneg, function, gated⟩ := guard
  have together : weigh depth (spell (read ++ tokens)) = weigh depth before + weigh depth (spell tokens) := by
    rw [spell_append, weigh_append, depth_eq derives]
  rcases place with ⟨rfl, begins⟩ | gate | ⟨bracket, block⟩
  · rw [List.append_nil]
    exact ready_of_gated nonneg (gated (by simpa [Begins] using begins)) derives
  · exact ⟨by omega, .inr (.inl (any_getLast?_append read gate))⟩
  · refine ⟨by omega, .inr (.inr ⟨any_getLast?_append read bracket, .inr ?_⟩)⟩
    rcases block with rfl | opened
    · have positive := function rfl
      omega
    · omega

/-- Going down the left edge to a word that begins a statement, one arrives at a place that is ready. -/
theorem ready_of_opens {target : Symbol} (begins : Begins target) {form : Body}
    (opens : Opens productions form tokens target) (member : production ∈ productions)
    (body : production.body = before ++ form) (derives : Derives productions before read) :
    Ready production.head (read ++ tokens) := by
  induction opens generalizing production before read with
  | here target rest =>
    obtain ⟨nonneg, _, gated⟩ := guarded member body
    rw [List.append_nil]
    exact ready_of_gated nonneg (gated begins) derives
  | terminal text _ ih =>
    have moved := ih begins member (by simpa using body) (derives.append (.spell [text]))
    simpa using moved
  | @past child childMember rest first second _ children _ ih =>
    have moved := ih begins member (by simpa using body) (derives.append (.of_body childMember children))
    simpa using moved
  | @into child childMember _ _ _ _ ih =>
    have inside : Ready child.head ([] ++ _) := ih begins childMember rfl .nil
    exact inside.behind (guarded member body) derives

/-- The productions of `stats`: one statement, or a statement behind others. -/
theorem body_of_stats : ∀ production ∈ productions, production.head = .given "stats" →
    production.body = [phrase "stat", word separator] ∨
      production.body = [phrase "stats", phrase "stat", word separator] := by
  decide +kernel

/-- No block is open behind complete statements, and their last token is no gate, once the separator that ends
them is taken off. -/
theorem whole_of_stats (derives : Derives productions [phrase "stats"] (tokens ++ [separator])) :
    weigh depth (spell tokens) = 0 ∧ tokens.getLast?.any (· ∉ gates) := by
  have balance := depth_eq derives
  obtain ⟨production, member, head, children⟩ := derives.exists_production
  obtain ⟨front, body, closes⟩ : ∃ front, production.body = front ++ [word separator] ∧
      front.getLast?.any (Closes (· ∉ gates) wholes) := by
    rcases body_of_stats production member head with same | same
    · exact ⟨[phrase "stat"], same, by decide⟩
    · exact ⟨[phrase "stats", phrase "stat"], same, by decide⟩
  rw [body] at children
  obtain ⟨left, right, same, derivesFront, derivesSeparator⟩ := children.split
  have last : right = [separator] := Derives.eq_of_spell derivesSeparator
  obtain rfl : tokens = left := by
    rw [last] at same
    exact List.append_cancel_right same
  refine ⟨?_, closedBy_wholes.getLast? derivesFront closes⟩
  rw [spell_append, weigh_append, show weigh depth (spell [separator]) = 0 by decide,
    show weigh depth [phrase "stats"] = 0 by decide] at balance
  omega

/-- A statement word is not found directly behind a list of complete statements without its last separator. -/
theorem not_opens_statementWord (derives : Derives productions [phrase "stats"] (tokens ++ [separator]))
    {text : String} (begins : text ∈ statementWords) :
    ¬ Opens productions [.nonterminal start] tokens (.terminal text) := by
  intro opens
  have beginsSymbol : Begins (.terminal text) := by simpa [Begins] using begins
  obtain ⟨balance, ends⟩ := whole_of_stats derives
  obtain ⟨last, found, noGate⟩ := (Option.any_eq_true _ _).mp ends
  obtain ⟨production, member, head, inside⟩ := opens.exists_production
  obtain ⟨_, place⟩ := ready_of_opens beginsSymbol inside member rfl .nil
  rw [List.nil_append, found, head] at place
  rcases place with ⟨nothing, _⟩ | gate | ⟨_, function | opened⟩
  · simp [nothing] at found
  · exact absurd (show last ∈ gates by simpa using gate) (by simpa using noGate)
  · exact absurd function (by decide)
  · omega

variable {first second : List String}

/-- Statements can be put in front of whatever begins with statements. -/
theorem derives_stats_append {form : Body} (front : Derives productions [phrase "stats"] first)
    (derives : Derives productions form second) (leads : form.head? = some (phrase "stats")) :
    Derives productions form (first ++ second) := by
  induction derives using Derives.tree_induction with
  | nil => cases leads
  | terminal => cases leads
  | @node production body left right member children rest ihChildren ihRest =>
    obtain head : production.head = .given "stats" := by simpa [phrase] using leads
    have more : ⟨.given "stats", [phrase "stats", phrase "stat", word separator]⟩ ∈ productions := by
      decide +kernel
    rw [← List.append_assoc, head]
    rcases body_of_stats production member head with same | same
    · rw [same] at children
      exact .node more (front.append children) rest
    · have moved := ihChildren (by rw [same]; rfl)
      rw [same] at moved
      exact .node more moved rest

/-- The productions of `chunk`: statements, a last statement, or both. -/
theorem body_of_chunk : ∀ production ∈ productions, production.head = start →
    production.body.head? = some (phrase "stats") ∨ production.body = [phrase "laststat", word separator] := by
  decide +kernel

/-- Statements can be put in front of a chunk. -/
theorem derives_chunk_append (front : Derives productions [phrase "stats"] first)
    (derives : Derives productions [.nonterminal start] second) :
    Derives productions [.nonterminal start] (first ++ second) := by
  obtain ⟨production, member, head, children⟩ := derives.exists_production
  rw [← head]
  rcases body_of_chunk production member head with leads | same
  · exact .of_body member (derives_stats_append front children leads)
  · have both : ⟨start, [phrase "stats", phrase "laststat", word separator]⟩ ∈ productions := by decide +kernel
    rw [same] at children
    rw [head]
    exact .of_body both (front.append children)

end Viable.Lua
