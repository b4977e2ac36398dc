import BoundaryAtlas.Fault
import BoundaryAtlas.Machine
import BoundaryAtlas.Point

/-!
# The grid

A grid has `numX + 1` columns and `numY + 1` rows. The node in column `i` and row `j` is the
point `(i * xSpacing, j * ySpacing)` of the plane.
-/

namespace BoundaryAtlas

/-- The sizes of a grid. -/
structure Grid (α : Type) where
  xSpacing : α
  numX : Nat
  ySpacing : α
  numY : Nat
  deriving DecidableEq, Repr

namespace Grid

variable {α : Type} [Scalar α]

/-- Checks that both spacings are positive and finite, and that there is a cell. -/
def validate (d : Grid α) : Except (Fault α) Unit :=
  if !(Scalar.isFinite d.xSpacing && decide (Scalar.ofNat 0 < d.xSpacing)) then
    .error (.grid (.xSpacing d.xSpacing))
  else if !(Scalar.isFinite d.ySpacing && decide (Scalar.ofNat 0 < d.ySpacing)) then
    .error (.grid (.ySpacing d.ySpacing))
  else if d.numX < 1 ∨ d.numY < 1 then .error (.grid (.noCells d.numX d.numY))
  else .ok ()

/-- The last column's `x`. Boundaries run over `[0, width]`. -/
def width (d : Grid α) : α := Scalar.ofNat d.numX * d.xSpacing

/-- The top row's `y`. -/
def height (d : Grid α) : α := Scalar.ofNat d.numY * d.ySpacing

/-- The largest number of kinks: two points in each column, of which the first and the last
are no kinks. -/
def kinkLimit (d : Grid α) : Nat := 2 * d.numX

end Grid

/-! ## Nodes -/

/-- A node of the grid. -/
structure GridPoint where
  col : Nat
  row : Nat
  deriving DecidableEq, Repr, Inhabited

namespace GridPoint

/-- Columns first, then rows. -/
def cmp : GridPoint → GridPoint → Ordering :=
  compareLex (compareOn GridPoint.col) (compareOn GridPoint.row)

instance : Std.TransCmp cmp :=
  inferInstanceAs (Std.TransCmp (compareLex (compareOn GridPoint.col) (compareOn GridPoint.row)))

instance : Std.LawfulEqCmp cmp where
  eq_of_compare {p q} h := by
    obtain ⟨i, j⟩ := p
    obtain ⟨k, l⟩ := q
    obtain ⟨h₁, h₂⟩ := Ordering.then_eq_eq.mp h
    exact GridPoint.mk.injEq i j k l ▸ ⟨Std.LawfulEqCmp.eq_of_compare h₁,
      Std.LawfulEqCmp.eq_of_compare h₂⟩

/-- Twice the signed area of the triangle `p`, `q`, `r`. -/
def cross (p q r : GridPoint) : Int :=
  ((q.col : Int) - p.col) * ((r.row : Int) - q.row) -
    ((q.row : Int) - p.row) * ((r.col : Int) - q.col)

/-- The three nodes lie on one line, or two of them are the same. -/
def collinear (p q r : GridPoint) : Bool := cross p q r == 0

end GridPoint

namespace Machine

variable {m : Type → Type} [Monad m] (M : Machine m)

/-- Twice the signed area of the triangle `p`, `q`, `r`. -/
@[specialize] def cross (p q r : GridPoint) : m Int := do
  let left ← M.signed ((← M.signed (q.col - p.col)) * (← M.signed (r.row - q.row)))
  let right ← M.signed ((← M.signed (q.row - p.row)) * (← M.signed (r.col - q.col)))
  M.signed (left - right)

/-- The three nodes lie on one line, or two of them are the same. -/
@[specialize] def collinear (p q r : GridPoint) : m Bool := do
  return (← M.cross p q r) == 0

end Machine

end BoundaryAtlas
