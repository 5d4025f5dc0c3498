/-!
# Random words from a seed

A seed of 64 bits determines an endless sequence of words of 32 bits: the seed
is spread over a key of eight words by a congruential generator, and the words
are the output of the ChaCha stream with twelve rounds under that key, block
after block, counted from zero and with an empty nonce.
-/

namespace Rundown.Random

/-- How many numbers a word tells apart. -/
def wordCount : Nat := 4294967296

/-- How many seeds there are. -/
def seedCount : Nat := 18446744073709551616

/-- The sixteen words on which a block is computed. -/
abbrev Block := Vector UInt32 16

/-- Rotate a word to the left. -/
def rotateLeft (x : UInt32) (n : UInt32) : UInt32 :=
  (x <<< n) ||| (x >>> (32 - n))

/-- Mix four of the words. -/
def quarterRound (v : Block) (a b c d : Fin 16) : Block :=
  let v := v.set a (v[a] + v[b])
  let v := v.set d (rotateLeft (v[d] ^^^ v[a]) 16)
  let v := v.set c (v[c] + v[d])
  let v := v.set b (rotateLeft (v[b] ^^^ v[c]) 12)
  let v := v.set a (v[a] + v[b])
  let v := v.set d (rotateLeft (v[d] ^^^ v[a]) 8)
  let v := v.set c (v[c] + v[d])
  v.set b (rotateLeft (v[b] ^^^ v[c]) 7)

/-- One round over the columns and one over the diagonals. -/
def doubleRound (v : Block) : Block :=
  let v := quarterRound v 0 4 8 12
  let v := quarterRound v 1 5 9 13
  let v := quarterRound v 2 6 10 14
  let v := quarterRound v 3 7 11 15
  let v := quarterRound v 0 5 10 15
  let v := quarterRound v 1 6 11 12
  let v := quarterRound v 2 7 8 13
  quarterRound v 3 4 9 14

/-- So many double rounds. -/
def doubleRounds : Nat → Block → Block
  | 0, v => v
  | n + 1, v => doubleRounds n (doubleRound v)

/-- The eight words of a key. -/
abbrev Key := Vector UInt32 8

/-- The words before the rounds: the constant, the key, the counter of the block
in two words, and an empty nonce. -/
def initial (key : Key) (counter : Nat) : Block :=
  #v[0x61707865, 0x3320646e, 0x79622d32, 0x6b206574,
    key[0], key[1], key[2], key[3], key[4], key[5], key[6], key[7],
    UInt32.ofNat counter, UInt32.ofNat (counter / wordCount), 0, 0]

/-- The words of one block of the stream. -/
def block (key : Key) (counter : Nat) : Block :=
  let first := initial key counter
  Vector.zipWith (· + ·) (doubleRounds 6 first) first

/-- The next state of the generator that spreads a seed. -/
def nextSeed (state : UInt64) : UInt64 :=
  state * 6364136223846793005 + 11634580027462260723

/-- The word that a state of the generator gives. -/
def seedWord (state : UInt64) : UInt32 :=
  let mixed := (((state >>> 18) ^^^ state) >>> 27).toUInt32
  let turn := (state >>> 59).toUInt32
  (mixed >>> turn) ||| (mixed <<< ((32 - turn) &&& 31))

/-- The key that belongs to a seed. -/
def keyOf (seed : UInt64) : Key :=
  let s1 := nextSeed seed
  let s2 := nextSeed s1
  let s3 := nextSeed s2
  let s4 := nextSeed s3
  let s5 := nextSeed s4
  let s6 := nextSeed s5
  let s7 := nextSeed s6
  let s8 := nextSeed s7
  #v[seedWord s1, seedWord s2, seedWord s3, seedWord s4,
    seedWord s5, seedWord s6, seedWord s7, seedWord s8]

/-- The word at a place of the stream. -/
def wordAt (key : Key) (n : Nat) : UInt32 :=
  (block key (n / 16)).get ⟨n % 16, Nat.mod_lt n (by decide)⟩

/-- The words of a seed. -/
def words (seed : Nat) : Nat → UInt32 :=
  let key := keyOf (UInt64.ofNat seed)
  fun n => wordAt key n

/-- Fair coins: each takes two words and shows true when the number of 64 bits
that they form lies in the lower half. -/
def coins (seed : Nat) : Nat → Bool :=
  let word := words seed
  fun n => word (2 * n + 1) < 0x80000000

end Rundown.Random
