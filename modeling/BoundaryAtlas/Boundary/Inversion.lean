import BoundaryAtlas.Boundary.Basic
import BoundaryAtlas.Machine

/-!
# Turning a boundary by half a turn

The points are reflected in the center of the box. Their order is reversed, so that they
run from left to right again.
-/

namespace BoundaryAtlas

variable {α : Type} [Scalar α]

/-- The boundary after half a turn about the center of the box. -/
@[specialize] def Boundary.invert (b : Boundary α) (box : Box α) : Boundary α where
  points := b.points.reverse.map (AffineMap.halfTurn box).apply
  nonempty := by simpa using b.nonempty

/-- The columns never go back. -/
def Boundary.isOrdered (b : Boundary α) : Bool :=
  (neighbours b.points).all fun (p, q) => p.x ≤ q.x

namespace Machine

variable {m : Type → Type} [Monad m] (M : Machine m)

/-- The boundary after half a turn, whose columns have to be in order again. -/
@[specialize] def invert (b : Boundary α) (box : Box α) : m (Boundary α) := do
  M.check (AffineMap.halfTurn box).keepsTimeAxis
  let turned := b.invert box
  M.check turned.isOrdered
  return turned

end Machine

end BoundaryAtlas
