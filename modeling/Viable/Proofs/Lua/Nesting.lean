import Viable.Proofs.Lua.Separation
import Viable.Proofs.Recovery.Correction
import Viable.Proofs.Session.Completion

/-! What the sentences of the Lua grammar open they close again, in the reverse order. Two names are not balanced on
their own: the body of a function closes the function, which was opened in front of it, and a chain of conditions
leaves its last condition open. Both are accounted for symbol by symbol, so that no replacement in a sentential form
changes what the form does to the stack of what is open. -/

namespace Viable.Lua

/-- The tokens that open something, which goes by the name of the token. -/
def openers : List String := ["do", "function", "if", "repeat", "(", "[", "\x7b"]

/-- What a token can close. Most tokens close nothing. -/
def closes : String → List String
  | "end" => ["do", "function", "if"]
  | "until" => ["repeat"]
  | ")" => ["("]
  | "]" => ["["]
  | "\x7d" => ["\x7b"]
  | _ => []

/-- One token changes what is open, innermost first. It is stuck if it closes something else than the innermost. -/
def shift (stack : List String) (token : String) : Option (List String) :=
  if token ∈ openers then some (token :: stack)
  else if closes token = [] then some stack
  else match stack with
    | [] => none
    | innermost :: outer => if innermost ∈ closes token then some outer else none

/-- What is open behind some tokens, unless one of them is stuck. -/
def nest (stack : List String) (tokens : List String) : Option (List String) := tokens.foldlM shift stack

/-- What has to be open for a name. Its token lists close it. -/
def needed (name : Name) : List String := if name = .given "funcbody" then ["function"] else []

/-- What a name leaves open in place of what it needed. -/
def leftOpen (name : Name) : List String := if name = conditions then ["if"] else []

/-- What one symbol does to the stack: a token by itself, and a name by all that it stands for. -/
def pass (stack : List String) : Symbol → Option (List String)
  | .terminal text => shift stack text
  | .nonterminal name => (stack.dropPrefix? (needed name)).map (leftOpen name ++ ·)

def passAll (stack : List String) (form : Body) : Option (List String) := form.foldlM pass stack

/-- Each body does what its head is said to do. -/
theorem passAll_body : ∀ production ∈ productions,
    passAll (needed production.head) production.body = some (leftOpen production.head) := by
  decide +kernel

theorem closedBy_separator : ClosedBy productions (· = separator) [.given "stats", start] := by decide +kernel

variable {stack next : List String}

theorem passAll_cons (stack : List String) (symbol : Symbol) (form : Body) :
    passAll stack (symbol :: form) = (pass stack symbol).bind (passAll · form) := List.foldlM_cons

theorem passAll_append (stack : List String) (first second : Body) :
    passAll stack (first ++ second) = (passAll stack first).bind (passAll · second) := List.foldlM_append

theorem passAll_spell (stack : List String) (tokens : List String) :
    passAll stack (spell tokens) = nest stack tokens := List.foldlM_map

theorem pass_nonterminal {name : Name} : pass stack (.nonterminal name) = some next ↔
    ∃ outer, stack = needed name ++ outer ∧ next = leftOpen name ++ outer := by
  simp only [pass, Option.map_eq_some_iff, List.dropPrefix?_eq_some_iff, beq_iff_eq]
  constructor
  · rintro ⟨outer, ⟨front, rfl, rfl⟩, rfl⟩
    exact ⟨outer, rfl, rfl⟩
  · rintro ⟨outer, rfl, rfl⟩
    exact ⟨outer, ⟨_, rfl, rfl⟩, rfl⟩

/-- What is open further out makes no difference to a token that is not stuck. -/
theorem shift_frame {token : String} (moves : shift stack token = some next) (outer : List String) :
    shift (stack ++ outer) token = some (next ++ outer) := by
  unfold shift at moves ⊢
  split at moves
  case isTrue opens =>
    cases moves
    rw [if_pos opens, List.cons_append]
  case isFalse noOpener =>
    rw [if_neg noOpener]
    split at moves
    case isTrue neutral =>
      cases moves
      rw [if_pos neutral]
    case isFalse closing =>
      rw [if_neg closing]
      cases stack with
      | nil => cases moves
      | cons innermost rest =>
        obtain ⟨fits, same⟩ := Option.ite_none_right_eq_some.mp moves
        cases same
        exact if_pos fits

theorem pass_frame {symbol : Symbol} (moves : pass stack symbol = some next) (outer : List String) :
    pass (stack ++ outer) symbol = some (next ++ outer) := by
  cases symbol with
  | terminal text => exact shift_frame moves outer
  | nonterminal name =>
    obtain ⟨rest, rfl, rfl⟩ := pass_nonterminal.mp moves
    exact pass_nonterminal.mpr ⟨rest ++ outer, List.append_assoc .., List.append_assoc ..⟩

theorem passAll_frame {form : Body} (moves : passAll stack form = some next) (outer : List String) :
    passAll (stack ++ outer) form = some (next ++ outer) := by
  induction form generalizing stack with
  | nil =>
    cases moves
    rfl
  | cons symbol form ih =>
    rw [passAll_cons, Option.bind_eq_some_iff] at moves ⊢
    obtain ⟨between, first, rest⟩ := moves
    exact ⟨between ++ outer, pass_frame first outer, ih rest⟩

/-- A body does to a stack what its head does. -/
theorem passAll_of_pass_head {production : Production} (member : production ∈ productions)
    (moves : pass stack (.nonterminal production.head) = some next) : passAll stack production.body = some next := by
  obtain ⟨outer, rfl, rfl⟩ := pass_nonterminal.mp moves
  exact passAll_frame (passAll_body production member) outer

/-- One replacement does not change what a form does. -/
theorem passAll_of_rewrites {form other : Body} (step : Rewrites productions form other)
    (moves : passAll stack form = some next) : passAll stack other = some next := by
  obtain ⟨before, after, production, member⟩ := step
  simp only [passAll_append, passAll_cons, Option.bind_eq_some_iff] at moves ⊢
  obtain ⟨reached, front, between, head, back⟩ := moves
  exact ⟨between, ⟨reached, front, passAll_of_pass_head member head⟩, back⟩

theorem passAll_of_rewritesTo {form other : Body} (steps : RewritesTo productions form other)
    (moves : passAll stack form = some next) : passAll stack other = some next := by
  induction steps with
  | refl => exact moves
  | tail _ step ih => exact passAll_of_rewrites step ih

/-- A sentential form of a chunk closes all that it opens, and nothing else. -/
theorem passAll_form {form : Body} (steps : RewritesTo productions [.nonterminal start] form) :
    passAll [] form = some [] :=
  passAll_of_rewritesTo steps (by decide)

/-- The tokens are never stuck, and where they are accepted, nothing is open and a separator has come last. -/
structure Nested (tokens : List String) (session : Session grammar) : Prop where
  unstuck : ∃ stack, nest [] tokens = some stack
  settled : session.isAccepting → nest [] tokens = some [] ∧ ∃ front, tokens = front ++ [separator]

/-- What a session has consumed stands at the beginning of a sentential form, and all of it when it accepts. -/
theorem Nested.of_reads {tokens : List String} {session : Session grammar}
    (reads : Session.Reads grammar start tokens session) : Nested tokens session where
  unstuck := by
    obtain ⟨rest, steps⟩ := reads.exists_form
    have whole := passAll_form steps
    rw [passAll_append, passAll_spell, Option.bind_eq_some_iff] at whole
    obtain ⟨stack, front, _⟩ := whole
    exact ⟨stack, front⟩
  settled accepting := by
    have derives := reads.isAccepting_iff.mp accepting
    have closed := passAll_form derives.rewritesTo
    rw [passAll_spell] at closed
    have ends := closedBy_separator.getLast? derives (by decide)
    obtain ⟨last, found, same⟩ := (Option.any_eq_true _ _).mp ends
    obtain rfl : last = separator := by simpa using same
    exact ⟨closed, List.getLast?_eq_some_iff.mp found⟩

/-- The Lua grammar is properly nested. Whatever a session on it has consumed from a chunk, on its own or fed with
recovery, and then with the separators that have been put in, closes nothing that is not open innermost. When the
session accepts, all that has been opened is closed again, and the last token is a separator. -/
theorem consumed_nested :
    (∀ tokens session, Session.Reads grammar start tokens session → Nested tokens session) ∧
    ∀ initial, Session.ofStart grammar start = .ok initial → ∀ recovery policy input,
      let transcript := initial.feed recovery policy input
      let stream := corrected recovery initial transcript.steps
      Session.Reads grammar start stream transcript.final ∧ Nested stream transcript.final := by
  refine ⟨fun tokens session reads => .of_reads reads, fun initial opened recovery policy input => ?_⟩
  intro transcript stream
  have ran : Ran recovery initial transcript.steps transcript.final := feedFrom_ran 0 initial input
  have reads : Session.Reads grammar start stream transcript.final :=
    (Session.Reads.fresh opened).advanceAll ran.advanceAll_corrected
  exact ⟨reads, .of_reads reads⟩

/-- A block that holds nothing but a return. -/
theorem derives_block : Derives productions [.nonterminal start] ["do", "return", ";", "end", ";"] := by
  have block : Derives productions [phrase "block"] ["return", ";"] :=
    .of_body (show ⟨.given "block", [.nonterminal start]⟩ ∈ productions by decide +kernel) derives_return
  have statement : Derives productions [phrase "stat"] ["do", "return", ";", "end"] :=
    .of_body (show ⟨.given "stat", [word "do", phrase "block", word "end"]⟩ ∈ productions by decide +kernel)
      ((block.append (.spell ["end"])).terminal "do")
  have statements : Derives productions [phrase "stats"] ["do", "return", ";", "end", ";"] :=
    .of_body (show ⟨.given "stats", [phrase "stat", word separator]⟩ ∈ productions by decide +kernel)
      (statement.append (.spell [separator]))
  exact .of_body (show ⟨start, [phrase "stats"]⟩ ∈ productions by decide +kernel) statements

def blockTokens : List Token :=
  [⟨"do", 0, 2⟩, ⟨"return", 3, 9⟩, ⟨";", 9, 10⟩, ⟨"end", 11, 14⟩, ⟨";", 14, 15⟩]

theorem nested_block : ∃ initial session, Session.ofStart grammar start = .ok initial ∧
    Session.Reads grammar start ["do", "return", ";", "end", ";"] session ∧ session.isAccepting ∧
    nest [] ["do", "return", ";", "end", ";"] = some [] ∧
    nest [] (corrected (some separator) initial (initial.feed (some separator) .halt blockTokens).steps) = some [] := by
  obtain ⟨initial, opened⟩ := exists_initial
  obtain ⟨session, _, reads, accepting⟩ := (Session.Reads.fresh opened).advanceAll_of_derives derives_block
  have derives : Derives productions [.nonterminal start] (blockTokens.map (·.text)) := derives_block
  obtain ⟨_, _, _, accepted⟩ := Session.feed_of_derives opened derives (some separator) .halt
  obtain ⟨consumed, fed⟩ := consumed_nested
  obtain ⟨_, nested⟩ := fed initial opened (some separator) .halt blockTokens
  exact ⟨initial, session, opened, reads, accepting, ((consumed _ session reads).settled accepting).1,
    (nested.settled accepted).1⟩

end Viable.Lua
