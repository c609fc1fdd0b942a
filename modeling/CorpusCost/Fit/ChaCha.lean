import CorpusCost.Fit.Words

/-!
# The ChaCha stream of words

Random words from the ChaCha stream cipher with eight rounds. A block is made from constants, a key
of eight words and a block counter; its sixteen words are read in pairs, the lower half first. The
key is made from a seed by a linear congruential generator with permuted output.
-/

set_option autoImplicit false

namespace CorpusCost.ChaCha

/-- The sixteen words of a block. -/
abbrev Block := Vector UInt32 16

/-- A word turned left by `count` bits, `count` being between 1 and 31. -/
def rotateLeft (word count : UInt32) : UInt32 := word <<< count ||| word >>> (32 - count)

/-- Mixes the words at four places. -/
def quarterRound (block : Block) (a b c d : Fin 16) : Block :=
  let block := block.set a (block[a] + block[b])
  let block := block.set d (rotateLeft (block[d] ^^^ block[a]) 16)
  let block := block.set c (block[c] + block[d])
  let block := block.set b (rotateLeft (block[b] ^^^ block[c]) 12)
  let block := block.set a (block[a] + block[b])
  let block := block.set d (rotateLeft (block[d] ^^^ block[a]) 8)
  let block := block.set c (block[c] + block[d])
  block.set b (rotateLeft (block[b] ^^^ block[c]) 7)

/-- Mixes the columns of a block and then its diagonals. -/
def doubleRound (block : Block) : Block :=
  let block := quarterRound block 0 4 8 12
  let block := quarterRound block 1 5 9 13
  let block := quarterRound block 2 6 10 14
  let block := quarterRound block 3 7 11 15
  let block := quarterRound block 0 5 10 15
  let block := quarterRound block 1 6 11 12
  let block := quarterRound block 2 7 8 13
  quarterRound block 3 4 9 14

/-- The key of a stream: eight words. -/
abbrev Key := Vector UInt32 8

/-- The block before mixing: constants, the key, the block counter, and zeros. -/
def initial (key : Key) (counter : UInt64) : Block :=
  #v[0x61707865, 0x3320646E, 0x79622D32, 0x6B206574,
    key[0], key[1], key[2], key[3], key[4], key[5], key[6], key[7],
    counter.toUInt32, (counter >>> 32).toUInt32, 0, 0]

/-- A block of the stream: four double rounds, added to the block before mixing. -/
def block (key : Key) (counter : UInt64) : Block :=
  let start := initial key counter
  let mixed := doubleRound (doubleRound (doubleRound (doubleRound start)))
  mixed.zipWith (· + ·) start

/-- Words taken two by two, the lower half first. -/
def pairs : List UInt32 → List UInt64
  | low :: high :: rest => (low.toUInt64 ||| high.toUInt64 <<< 32) :: pairs rest
  | _ => []

/-- A place in a stream. -/
structure Stream where
  /-- The key of the stream. -/
  key : Key
  /-- The counter of the next block. -/
  counter : UInt64
  /-- The words left of the block before it. -/
  pending : List UInt64

instance : WordSource Stream where
  next stream :=
    match stream.pending with
    | word :: pending => (word, { stream with pending })
    | [] =>
      match pairs (block stream.key stream.counter).toList with
      | word :: pending => (word, ⟨stream.key, stream.counter + 1, pending⟩)
      | [] => (0, stream)

/-! ## Keys from seeds -/

/-- The next state of the generator that makes keys. -/
def nextState (state : UInt64) : UInt64 := state * 6364136223846793005 + 11634580027462260723

/-- The word that a state of the generator shows. -/
def shown (state : UInt64) : UInt32 :=
  let word := (((state >>> 18) ^^^ state) >>> 27).toUInt32
  let turn := (state >>> 59).toUInt32
  if turn = 0 then word else word >>> turn ||| word <<< (32 - turn)

/-- The first `count` words that the generator shows from a seed. -/
def shownWords : Nat → UInt64 → List UInt32
  | 0, _ => []
  | count + 1, state => shown (nextState state) :: shownWords count (nextState state)

@[simp] theorem length_shownWords (count : Nat) (state : UInt64) :
    (shownWords count state).length = count := by
  induction count generalizing state with
  | zero => rfl
  | succ count ih => simp [shownWords, ih]

/-- The key made from a seed. -/
def keyOfSeed (seed : UInt64) : Key := ⟨(shownWords 8 seed).toArray, by simp⟩

/-- The stream of a seed, from its beginning. -/
def ofSeed (seed : UInt64) : Stream := ⟨keyOfSeed seed, 0, []⟩

end CorpusCost.ChaCha
