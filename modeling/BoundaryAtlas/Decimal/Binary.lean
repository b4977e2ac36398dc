import BoundaryAtlas.Power

/-!
# Floats as fractions

A finite float is `± mantissa * 2 ^ exponent`. All decimal text starts from these two
numbers, in exact arithmetic.
-/

namespace BoundaryAtlas.Decimal

/-- The size of a finite float, `mantissa * 2 ^ exponent`. -/
structure Binary where
  mantissa : Nat
  exponent : Int
  /-- The gap to the float below is half the gap to the float above. -/
  narrowBelow : Bool
  deriving DecidableEq, Repr

namespace Binary

/-- Reads the lower 63 bits of a finite float. -/
def ofBits (bits : UInt64) : Binary :=
  let field : Nat := bits.toNat / twoPow 52 % twoPow 11
  let fraction : Nat := bits.toNat % twoPow 52
  if field = 0 then ⟨fraction, -1074, false⟩
  else ⟨twoPow 52 + fraction, (field : Int) - 1075, fraction = 0 && field ≠ 1⟩

/-- The size as a quotient of natural numbers. -/
def num (b : Binary) : Nat := b.mantissa * twoPow b.exponent.toNat
def den (b : Binary) : Nat := twoPow (-b.exponent).toNat

end Binary

/-- The sign bit, which zero and the undefined values have too. -/
def isNegative (x : Float) : Bool :=
  x.toBits.toNat / twoPow 63 % 2 = 1

def binary (x : Float) : Binary := Binary.ofBits x.toBits

end BoundaryAtlas.Decimal
