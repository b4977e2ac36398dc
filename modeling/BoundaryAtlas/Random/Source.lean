import BoundaryAtlas.Random.Choice

/-!
# Sources of random choices

All that the sampler asks of a source is a stream for every seed, and two kinds of choices from a
stream. The keystream of ChaCha is one such source.
-/

namespace BoundaryAtlas

/-- Streams of random choices, each named by a seed. -/
structure RandomSource where
  Stream : Type
  ofSeed : UInt64 → Stream
  /-- A set of `amount` numbers below `length`, in no particular order. -/
  indexSet (length amount : Nat) : StateM Stream (List Nat)
  /-- A number from zero to `hi`, both included. -/
  upTo (hi : Nat) : StateM Stream Nat

namespace Random

def chaCha : RandomSource := ⟨Stream, Stream.ofSeed, indexSet, between 0⟩

end Random

end BoundaryAtlas
