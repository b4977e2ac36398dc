import BoundaryAtlas.Decimal.Binary
import BoundaryAtlas.Decimal.Rounding

/-!
# The shortest decimal of a float

Among the decimals that read back to a float, the shortest are those with the fewest
digits. Of these the nearest to the float is chosen.
-/

namespace BoundaryAtlas.Decimal

/-- The decimal `digits * 10 ^ exponent`. -/
structure Scaled where
  digits : Nat
  exponent : Int
  deriving DecidableEq, Repr

/-- Drops the zeros at the end of the digits. -/
def Scaled.stripZeros (fuel : Nat) (s : Scaled) : Scaled :=
  match fuel with
  | 0 => s
  | fuel + 1 =>
    if s.digits ≠ 0 ∧ s.digits % 10 = 0 then stripZeros fuel ⟨s.digits / 10, s.exponent + 1⟩ else s

namespace Binary

/-- Whether the decimal lies among the reals that round to `b`, to nearest and ties to even. -/
def readsBack (b : Binary) (s : Scaled) : Bool :=
  -- Quarters of the last binary place, so that both ends of the interval are whole.
  let lo := if b.narrowBelow then 4 * b.mantissa - 1 else 4 * b.mantissa - 2
  let hi := 4 * b.mantissa + 2
  let scale := twoPow b.exponent.toNat * tenPow (-s.exponent).toNat
  let mid := 4 * s.digits * tenPow s.exponent.toNat * twoPow (-b.exponent).toNat
  if b.mantissa % 2 = 0 then lo * scale ≤ mid && mid ≤ hi * scale
  else lo * scale < mid && mid < hi * scale

/-- The best decimal in steps of `10 ^ k`, if one of the two neighbours of `b` reads back. -/
def onGrid? (b : Binary) (tie : Tie) (k : Int) : Option Scaled :=
  let num := b.num * tenPow (-k).toNat
  let den := b.den * tenPow k.toNat
  let floor := num / den
  let below : Scaled := ⟨floor, k⟩
  let above : Scaled := ⟨floor + 1, k⟩
  match b.readsBack below, b.readsBack above with
  | true, true => some (if tie.roundsUp floor (2 * (num % den)) den then above else below)
  | true, false => some below
  | false, true => some above
  | false, false => none

/-- The first hit on the grids `10 ^ k`, `10 ^ (k - 1)`, … -/
def firstOnGrid (b : Binary) (tie : Tie) : Nat → Int → Scaled
  | 0, k => ⟨0, k⟩
  | fuel + 1, k =>
    match b.onGrid? tie k with
    | some s => s
    | none => firstOnGrid b tie fuel (k - 1)

/-- A power of ten that is above the size of `b`, by two places at most. -/
def placesAbove (b : Binary) : Int :=
  (b.mantissa.log2 + b.exponent + 1) * 30103 / 100000 + 1

/-- The shortest decimal that reads back, without zeros at the end. -/
def shortest (b : Binary) (tie : Tie) : Scaled :=
  if b.mantissa = 0 then ⟨0, 0⟩
  else (b.firstOnGrid tie 22 b.placesAbove).stripZeros 400

end Binary

end BoundaryAtlas.Decimal
