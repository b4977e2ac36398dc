import BoundaryAtlas.Power

/-!
# Reading a float

A decimal is read as the nearest float. Sizes that no float has are told apart before any
power of ten is computed, so that a long exponent costs nothing.
-/

namespace BoundaryAtlas.Decimal

/-- A decimal as it is written: `whole.fraction * 10 ^ exponent`, where the fraction has
`places` digits. -/
structure Numeral where
  whole : Nat
  fraction : Nat
  places : Nat
  exponent : Int
  deriving DecidableEq, Repr

namespace Numeral

/-- All digits as one number. -/
def digits (n : Numeral) : Nat := n.whole * tenPow n.places + n.fraction

/-- The power of ten that the digits are multiplied with. -/
def scale (n : Numeral) : Int := n.exponent - n.places

/-- The float nearest to the numeral, infinite if the numeral is too large. -/
def toFloat (n : Numeral) : Float :=
  let digits := n.digits
  if digits = 0 then 0.0
  else
    let leading := n.scale + digits.log2 * 30103 / 100000
    if leading > 320 then 1.0 / 0.0
    else if leading < -340 then 0.0
    else if n.scale < 0 then Float.ofScientific digits true n.scale.natAbs
    else Float.ofScientific digits false n.scale.natAbs

end Numeral

/-- The float with a sign in front. -/
def signed (negative : Bool) (x : Float) : Float :=
  if negative then -x else x

end BoundaryAtlas.Decimal
