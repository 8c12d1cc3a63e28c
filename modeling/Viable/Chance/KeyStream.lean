import Viable.Chance.Source

/-! The ChaCha key stream of twelve rounds as a source of random words, keyed by a number. -/

namespace Viable.Chance

abbrev Block := Vector UInt32 16

namespace Block

def rotateLeft (word : UInt32) (count : UInt32) : UInt32 := word <<< count ||| word >>> (32 - count)

/-- Adds one word to another and turns a third by the sum. -/
def mix (sum addend turned : Fin 16) (count : UInt32) (block : Block) : Block :=
  let block := block.set sum (block[sum] + block[addend])
  block.set turned (rotateLeft (block[turned] ^^^ block[sum]) count)

def quarterRound (a b c d : Fin 16) (block : Block) : Block :=
  block |> mix a b d 16 |> mix c d b 12 |> mix a b d 8 |> mix c d b 7

/-- A round over the columns and a round over the diagonals. -/
def doubleRound (block : Block) : Block :=
  block
    |> quarterRound 0 4 8 12 |> quarterRound 1 5 9 13 |> quarterRound 2 6 10 14 |> quarterRound 3 7 11 15
    |> quarterRound 0 5 10 15 |> quarterRound 1 6 11 12 |> quarterRound 2 7 8 13 |> quarterRound 3 4 9 14

/-- Constants, key, block number with the low word first, and no nonce. -/
def initial (key : Vector UInt32 8) (number : UInt64) : Block :=
  #v[0x61707865, 0x3320646e, 0x79622d32, 0x6b206574,
    key[0], key[1], key[2], key[3], key[4], key[5], key[6], key[7],
    number.toUInt32, (number >>> 32).toUInt32, 0, 0]

/-- Twelve rounds of mixing, added to what they started from. -/
def ofNumber (key : Vector UInt32 8) (number : UInt64) : Block :=
  let block := initial key number
  Vector.zipWith (· + ·) (Nat.repeat doubleRound 6 block) block

end Block

/-- The rest of the current block, and the number of the next one. -/
structure KeyStream where
  key : Vector UInt32 8
  number : UInt64
  rest : List UInt32

namespace KeyStream

/-- One step of the congruential generator that spreads a seed over the key. -/
def stepSeed (state : UInt64) : UInt64 := state * 6364136223846793005 + 11634580027462260723

/-- The word for a generator state: its upper bits, folded, and turned by the highest five. -/
def seedWord (state : UInt64) : UInt32 :=
  let folded := (((state >>> 18) ^^^ state) >>> 27).toUInt32
  let turn := (state >>> 59).toUInt32
  Block.rotateLeft folded (32 - turn)

/-- The words for the states after a seed. -/
def seedWords : Nat → UInt64 → List UInt32
  | 0, _ => []
  | count + 1, state => seedWord (stepSeed state) :: seedWords count (stepSeed state)

def ofSeed (seed : UInt64) : KeyStream :=
  ⟨Vector.ofFn fun position => (seedWords 8 seed).getD position 0, 0, []⟩

def next (stream : KeyStream) : UInt32 × KeyStream :=
  match stream.rest with
  | word :: rest => (word, { stream with rest })
  | [] =>
    let block := Block.ofNumber stream.key stream.number
    (block[0], { stream with number := stream.number + 1, rest := block.toList.tail })

/-- The stream repeats after sixteen words for each block number. -/
instance : Source KeyStream where
  next := next
  patience _ := 1 <<< 68

end KeyStream

end Viable.Chance
