import BoundaryAtlas.Power

/-!
# A stream of random words

The words are the keystream of ChaCha with twelve rounds, block after block. A 64-bit seed
is expanded to the eight words of the key.
-/

namespace BoundaryAtlas.Random

def rotateLeft (x n : UInt32) : UInt32 := (x <<< n) ||| (x >>> (32 - n))
def rotateRight (x n : UInt32) : UInt32 := (x >>> n) ||| (x <<< (32 - n))

/-! ## One block -/

/-- The sixteen words that a block is computed from. -/
abbrev BlockState := Vector UInt32 16

/-- Mixes four words. -/
def quarterRound (s : BlockState) (a b c d : Fin 16) : BlockState :=
  let s := s.set a (s[a] + s[b])
  let s := s.set d (rotateLeft (s[d] ^^^ s[a]) 16)
  let s := s.set c (s[c] + s[d])
  let s := s.set b (rotateLeft (s[b] ^^^ s[c]) 12)
  let s := s.set a (s[a] + s[b])
  let s := s.set d (rotateLeft (s[d] ^^^ s[a]) 8)
  let s := s.set c (s[c] + s[d])
  s.set b (rotateLeft (s[b] ^^^ s[c]) 7)

/-- One round on the columns and one on the diagonals. -/
def doubleRound (s : BlockState) : BlockState :=
  let s := quarterRound s 0 4 8 12
  let s := quarterRound s 1 5 9 13
  let s := quarterRound s 2 6 10 14
  let s := quarterRound s 3 7 11 15
  let s := quarterRound s 0 5 10 15
  let s := quarterRound s 1 6 11 12
  let s := quarterRound s 2 7 8 13
  quarterRound s 3 4 9 14

/-- The block with number `counter`. -/
def block (key : Vector UInt32 8) (counter : UInt64) : BlockState :=
  let s : BlockState := #v[0x61707865, 0x3320646e, 0x79622d32, 0x6b206574,
    key[0], key[1], key[2], key[3], key[4], key[5], key[6], key[7],
    counter.toUInt32, (counter >>> 32).toUInt32, 0, 0]
  (Nat.repeat doubleRound 6 s).zipWith (· + ·) s

/-! ## The stream -/

/-- A place in a stream: words that are left of the last block, and the next block. -/
structure Stream where
  key : Vector UInt32 8
  counter : UInt64
  left : List UInt32

/-- The next word of the key, and the state after it. -/
def expandSeed (k : UInt64) : UInt32 × UInt64 :=
  let k := k * 6364136223846793005 + 11634580027462260723
  (rotateRight (((k >>> 18) ^^^ k) >>> 27).toUInt32 (k >>> 59).toUInt32, k)

/-- The first `n` words of a key. -/
def keyWords : (n : Nat) → UInt64 → List UInt32
  | 0, _ => []
  | n + 1, k => (expandSeed k).1 :: keyWords n (expandSeed k).2

def Stream.ofSeed (seed : UInt64) : Stream :=
  let words := keyWords 8 seed
  ⟨Vector.ofFn fun i => words.getD i 0, 0, []⟩

/-- Computations that draw from a stream. -/
abbrev Draw := StateM Stream

/-- The next 32 bits. -/
def word32 : Draw Nat := fun s =>
  match s.left with
  | w :: left => (w.toNat, { s with left })
  | [] =>
    match (block s.key s.counter).toList with
    | w :: left => (w.toNat, { s with counter := s.counter + 1, left })
    | [] => (0, s)

/-- The next 64 bits, with the low word first. -/
def word64 : Draw Nat := do
  let low ← word32
  let high ← word32
  return low + twoPow 32 * high

end BoundaryAtlas.Random
