/-! Sources of random words, and fair choices made with them. -/

namespace Viable.Chance

/-- A source hands out one word after the other. -/
class Source (σ : Type) where
  next : σ → UInt32 × σ
  /-- How many words are drawn for one choice before the first candidate is taken unasked. -/
  patience : σ → Nat

/-- The low halves of a word times `count` that decide a choice: a multiple of `count` of them, so
that no number below `count` is preferred. -/
def zone (count : Nat) : Nat := (count <<< (31 - count.log2)) - 1

variable {σ : Type} [Source σ]

/-- Draws words until the low half of one times `count` lies in the zone; the high half is the answer. -/
def draw (count : Nat) : Nat → StateM σ Nat
  | 0 => pure 0
  | patience + 1 => do
    let word ← modifyGet Source.next
    let product := word.toNat * count
    if product % 2 ^ 32 ≤ zone count then return product / 2 ^ 32 else draw count patience

/-- A number below `count`, which is positive and fits 32 bits. -/
def below (count : Nat) : StateM σ Nat := fun source => draw count (Source.patience source) source

/-- One of the items. Nothing is drawn if there are none. -/
def choose {α : Type} (items : List α) : OptionT (StateM σ) α :=
  if items.isEmpty then failure
  else do
    let position ← OptionT.lift (below items.length)
    items[position]?.getM

/-- Words written down in advance, and zeros when they are used up. -/
structure Listed where
  words : List UInt32
  drawn : Nat

/-- A zero decides every choice. -/
instance : Source Listed where
  next source :=
    match source.words with
    | [] => (0, ⟨[], source.drawn + 1⟩)
    | word :: rest => (word, ⟨rest, source.drawn + 1⟩)
  patience source := source.words.length + 1

end Viable.Chance
