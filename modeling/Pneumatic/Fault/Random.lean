/-!
# Random sources

A source gives words of 64 and of 32 bits.  Draws below a bound reject the words
that would favour some results, so a source may be asked any number of times;
`fuel` bounds the attempts.  `KeyStream` is the source that a seed determines: the
ChaCha stream cipher with twelve rounds, keyed from the seed.
-/

namespace Pneumatic.Fault

/-- A source of random words with states of type `σ`. -/
structure Source (σ : Type) where
  next64 : σ → UInt64 × σ
  next32 : σ → UInt32 × σ

namespace Source

variable {σ : Type}

/-- The largest low half of a product that is accepted for a draw below `range` from
words of `bits` bits. -/
def zone (bits range : Nat) : Nat :=
  (range <<< (bits - 1 - Nat.log2 range)) - 1

/-- One attempt to draw below `range` with a word of `bits` bits. -/
def accept? (bits range word : Nat) : Option Nat :=
  let product := word * range
  if product % (1 <<< bits) ≤ zone bits range then some (product >>> bits) else none

/-- Draw a number below `range` with words of `bits` bits that come out of states. -/
def below? (bits : Nat) (next : σ → Nat × σ) (range : Nat) : Nat → σ → Option (Nat × σ)
  | 0, _ => none
  | fuel + 1, state =>
      let (word, state) := next state
      match accept? bits range word with
      | some value => some (value, state)
      | none => below? bits next range fuel state

/-- Draw a number below `range` from words of 64 bits. -/
def below64? (source : Source σ) (range : Nat) : Nat → σ → Option (Nat × σ) :=
  below? 64 (fun state => (source.next64 state).map (·.toNat) id) range

/-- Draw a number below `range` from words of 32 bits. -/
def below32? (source : Source σ) (range : Nat) : Nat → σ → Option (Nat × σ) :=
  below? 32 (fun state => (source.next32 state).map (·.toNat) id) range

/-- Draw whether to act, which happens three times in ten. -/
def threeInTen (source : Source σ) (state : σ) : Bool × σ :=
  let (word, state) := source.next64 state
  (word < 5534023222112865280, state)

end Source

/-- A key stream: its key, the number of the next block, and the words left of the
last one. -/
structure KeyStream where
  key : List UInt32
  block : UInt64
  rest : List UInt32
  deriving DecidableEq, Repr

namespace KeyStream

/-- Rotate a word to the left. -/
def rotateLeft (word amount : UInt32) : UInt32 :=
  (word <<< amount) ||| (word >>> (32 - amount))

/-- The word at a place of the state; the sixteen places of a state all hold one. -/
def word (state : Array UInt32) (place : Nat) : UInt32 :=
  state[place]?.getD 0

/-- Mix four words of the state. -/
def quarterRound (state : Array UInt32) (a b c d : Nat) : Array UInt32 :=
  let mix (state : Array UInt32) (sum addend turned : Nat) (amount : UInt32) : Array UInt32 :=
    let total := word state sum + word state addend
    (state.setIfInBounds sum total).setIfInBounds turned
      (rotateLeft (word state turned ^^^ total) amount)
  mix (mix (mix (mix state a b d 16) c d b 12) a b d 8) c d b 7

/-- Mix the columns, then the diagonals. -/
def doubleRound (state : Array UInt32) : Array UInt32 :=
  let quarters : List (Nat × Nat × Nat × Nat) :=
    [(0, 4, 8, 12), (1, 5, 9, 13), (2, 6, 10, 14), (3, 7, 11, 15),
      (0, 5, 10, 15), (1, 6, 11, 12), (2, 7, 8, 13), (3, 4, 9, 14)]
  quarters.foldl (fun state (a, b, c, d) => quarterRound state a b c d) state

/-- The state before mixing: four constants, the key, the number of the block, and
the stream, which is always the first. -/
def initial (key : List UInt32) (block : UInt64) : Array UInt32 :=
  let constants : List UInt32 := [0x61707865, 0x3320646e, 0x79622d32, 0x6b206574]
  (constants ++ key ++ [block.toUInt32, (block >>> 32).toUInt32, 0, 0]).toArray

/-- The words of a block: twelve rounds, added to the state before. -/
def blockWords (key : List UInt32) (block : UInt64) : List UInt32 :=
  let before := initial key block
  let after := (List.range 6).foldl (fun state _ => doubleRound state) before
  (before.zip after).toList.map fun (left, right) => left + right

/-- The next word of the stream. -/
def next32 (stream : KeyStream) : UInt32 × KeyStream :=
  match stream.rest with
  | word :: rest => (word, { stream with rest })
  | [] =>
      let words := blockWords stream.key stream.block
      (words.head?.getD 0, { stream with block := stream.block + 1, rest := words.tail })

/-- The next two words of the stream, the first one low. -/
def next64 (stream : KeyStream) : UInt64 × KeyStream :=
  let (low, stream) := stream.next32
  let (high, stream) := stream.next32
  (low.toUInt64 ||| (high.toUInt64 <<< 32), stream)

/-- One word of key from the generator that spreads a seed, and its next state. -/
def keyWord (state : UInt64) : UInt32 × UInt64 :=
  let state := state * 6364136223846793005 + 11634580027462260723
  let shifted := (((state >>> 18) ^^^ state) >>> 27).toUInt32
  let turn := (state >>> 59).toUInt32
  ((shifted >>> turn) ||| (shifted <<< ((32 - turn) % 32)), state)

/-- So many words of key. -/
def keyWords : Nat → UInt64 → List UInt32
  | 0, _ => []
  | count + 1, state =>
      let (word, state) := keyWord state
      word :: keyWords count state

/-- The stream of a seed. -/
def ofSeed (seed : UInt64) : KeyStream :=
  ⟨keyWords 8 seed, 0, []⟩

/-- Key streams as a random source. -/
def source : Source KeyStream := ⟨next64, next32⟩

end KeyStream

end Pneumatic.Fault
