/-!
# Draw keys and their seeds

A key names one random draw by the seed of a run and the draw's index in it. Both are
mixed into one 64-bit seed. All arithmetic is modulo `2 ^ 64`.
-/

namespace BoundaryAtlas

/-- Names one random draw. -/
structure DrawKey where
  seed : UInt64
  index : UInt64
  deriving DecidableEq, Repr

namespace Random

/-- Scatters the bits of a word. -/
def scramble (x : UInt64) : UInt64 :=
  let x := (x ^^^ (x >>> 30)) * 0xbf58476d1ce4e5b9
  let x := (x ^^^ (x >>> 27)) * 0x94d049bb133111eb
  x ^^^ (x >>> 31)

end Random

/-- The seed of the key's stream of random words. -/
def DrawKey.streamSeed (k : DrawKey) : UInt64 :=
  Random.scramble (k.seed ^^^ Random.scramble (k.index + 0x9e3779b97f4a7c15))

end BoundaryAtlas
