import BoundaryAtlas.Decimal.Layout

/-!
# A fixed number of decimal places

The exact value of the float is rounded, and a half goes to the even neighbour.
-/

namespace BoundaryAtlas.Decimal

/-- The digits of `n / 10 ^ places`. -/
def fixedDigits (n places : Nat) : List Char :=
  let digits := digitChars n
  let padded := List.replicate (places + 1 - digits.length) '0' ++ digits
  let whole := padded.length - places
  if places = 0 then padded else padded.take whole ++ '.' :: padded.drop whole

/-- The text of a float with `places` decimal places. -/
def fixedText (x : Float) (places : Nat) : String :=
  if x.isNaN then "NaN"
  else
    let magnitude :=
      if x.isInf then ['i', 'n', 'f']
      else fixedDigits (roundDiv ((binary x).num * tenPow places) (binary x).den .toEven) places
    String.ofList (if isNegative x then '-' :: magnitude else magnitude)

end BoundaryAtlas.Decimal
