import BoundaryAtlas.Scalar

/-!
# Points, boxes and affine maps of the parameter plane

The first coordinate `x` is time-like, the second `y` is the bounded state value.
-/

namespace BoundaryAtlas

/-- A point of the parameter plane. -/
structure Point (α : Type) where
  x : α
  y : α
  deriving DecidableEq, Repr

namespace Point

variable {α : Type} [Scalar α]

instance : Sub (Point α) := ⟨fun p q => ⟨p.x - q.x, p.y - q.y⟩⟩

instance : BEq (Point α) := ⟨fun p q => p.x == q.x && p.y == q.y⟩

def isFinite (p : Point α) : Bool :=
  Scalar.isFinite p.x && Scalar.isFinite p.y

/-- The signed area of the parallelogram that `u` and `v` span. -/
@[specialize] def cross (u v : Point α) : α :=
  u.x * v.y - u.y * v.x

/-- Euclidean length. -/
@[specialize] def norm [HasSqrt α] (u : Point α) : α :=
  HasSqrt.sqrt (u.x * u.x + u.y * u.y)

end Point

/-! ## Boxes -/

/-- A closed interval. -/
structure Interval (α : Type) where
  lo : α
  hi : α
  deriving DecidableEq, Repr

/-- The admissible rectangle of parameters. -/
structure Box (α : Type) where
  x : Interval α
  y : Interval α
  deriving DecidableEq, Repr

namespace Box

variable {α : Type} [Scalar α]

/-- The box `[0, 20] × [0, 1]`, for which the canonical envelope is written. -/
def canonical : Box α :=
  ⟨⟨Scalar.ofNat 0, Scalar.ofNat 20⟩, ⟨Scalar.ofNat 0, Scalar.ofNat 1⟩⟩

def contains (b : Box α) (p : Point α) : Bool :=
  decide (b.x.lo ≤ p.x) && decide (p.x ≤ b.x.hi) && decide (b.y.lo ≤ p.y) && decide (p.y ≤ b.y.hi)

def center (b : Box α) : Point α :=
  ⟨Scalar.ofDecimal 5 1 * (b.x.lo + b.x.hi), Scalar.ofDecimal 5 1 * (b.y.lo + b.y.hi)⟩

end Box

/-! ## Affine maps -/

/-- The map `p ↦ M p + t`, with the entries of `M` row by row. -/
structure AffineMap (α : Type) where
  m00 : α
  m01 : α
  m10 : α
  m11 : α
  t : Point α
  deriving DecidableEq, Repr

namespace AffineMap

variable {α : Type} [Scalar α]

/-- Half a turn about the center of the box. -/
def halfTurn (b : Box α) : AffineMap α where
  m00 := -Scalar.ofNat 1
  m01 := -Scalar.ofNat 0
  m10 := -Scalar.ofNat 0
  m11 := -Scalar.ofNat 1
  t := ⟨b.x.lo + b.x.hi, b.y.lo + b.y.hi⟩

@[specialize] def apply (f : AffineMap α) (p : Point α) : Point α :=
  ⟨(f.m00 * p.x + f.m01 * p.y) + f.t.x, (f.m10 * p.x + f.m11 * p.y) + f.t.y⟩

/-- The new `x` depends on the old `x`, and on nothing else. -/
def keepsTimeAxis (f : AffineMap α) : Bool :=
  f.m01 == Scalar.ofNat 0 && !(f.m00 == Scalar.ofNat 0)

end AffineMap

end BoundaryAtlas
