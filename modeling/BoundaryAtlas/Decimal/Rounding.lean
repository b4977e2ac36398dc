/-!
# Rounding a quotient to a natural number
-/

namespace BoundaryAtlas.Decimal

/-- Where a quotient goes that lies halfway between two natural numbers. -/
inductive Tie where
  | toEven
  | up
  deriving DecidableEq, Repr

/-- Whether a fraction that lies `twice / 2` units of `unit` above `floor` goes up. -/
def Tie.roundsUp (tie : Tie) (floor twice unit : Nat) : Bool :=
  if twice = unit then
    match tie with
    | .toEven => floor % 2 = 1
    | .up => true
  else unit < twice

/-- The natural number nearest to `num / den`. -/
def roundDiv (num den : Nat) (tie : Tie) : Nat :=
  let floor := num / den
  if tie.roundsUp floor (2 * (num % den)) den then floor + 1 else floor

end BoundaryAtlas.Decimal
