/-!
# The numbers of the plane

Geometry and synthesis are written once, over any type of numbers with the operations
below. Programs run on `Float`. Exact arithmetic is the same text over an ordered field.
-/

namespace BoundaryAtlas

/-- Numbers with the four operations, an order that can be decided, and decimal literals. -/
class Scalar (α : Type) extends Add α, Sub α, Mul α, Div α, Neg α, LT α, LE α, BEq α where
  decLt : DecidableLT α
  decLe : DecidableLE α
  /-- Neither infinite nor undefined. -/
  isFinite : α → Bool
  ofNat : Nat → α
  /-- The literal `digits / 10 ^ places`. -/
  ofDecimal : (digits places : Nat) → α
  /-- A number above all others, where the type has one. -/
  infinity? : Option α

attribute [reducible, instance] Scalar.decLt Scalar.decLe

/-- Numbers with a square root, for distances. -/
class HasSqrt (α : Type) where
  sqrt : α → α

namespace Scalar

variable {α : Type} [Scalar α]

/-- The larger of two numbers. One that differs from itself gives way to the other. -/
@[specialize] def larger (a b : α) : α :=
  if a < b then b else if a == a then a else b

/-- The smaller of two numbers. One that differs from itself gives way to the other. -/
@[specialize] def smaller (a b : α) : α :=
  if b < a then b else if a == a then a else b

/-- Moves `t` into `[lo, hi]`. -/
@[specialize] def clamp (t lo hi : α) : α :=
  let t := if t < lo then lo else t
  if hi < t then hi else t

/-- The distance from zero. -/
@[specialize] def abs (a : α) : α :=
  if a < ofNat 0 then -a else a

/-- The number below all others, where the type has one. -/
def negInfinity? : Option α :=
  (infinity? : Option α).map (- ·)

end Scalar

/-! ## Floating point -/

instance : Scalar Float where
  decLt := fun a b => inferInstanceAs (Decidable (a < b))
  decLe := fun a b => inferInstanceAs (Decidable (a ≤ b))
  isFinite := Float.isFinite
  ofNat := Float.ofNat
  ofDecimal := fun digits places => Float.ofScientific digits true places
  infinity? := some (1.0 / 0.0)

instance : HasSqrt Float where
  sqrt := Float.sqrt

end BoundaryAtlas
