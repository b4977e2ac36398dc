import BoundaryAtlas.Boundary.Basic
import BoundaryAtlas.Grid.Basic

/-!
# Boundaries on the grid

A grid boundary is a list of nodes. It is the key under which a label is kept, so it has an
order: node by node, and a list comes after its own beginnings.
-/

namespace BoundaryAtlas

/-- A polyline through nodes of the grid. -/
structure GridBoundary where
  points : List GridPoint
  deriving DecidableEq, Repr, Inhabited

namespace GridBoundary

def cmp (a b : GridBoundary) : Ordering := List.compareLex GridPoint.cmp a.points b.points

instance : Std.TransCmp cmp where
  eq_swap := Std.OrientedCmp.eq_swap (α := List GridPoint)
  isLE_trans h₁ h₂ := Std.TransCmp.isLE_trans (α := List GridPoint) h₁ h₂

instance : Std.LawfulEqCmp cmp where
  eq_of_compare h := congrArg GridBoundary.mk
    (Std.LawfulEqCmp.eq_of_compare (α := List GridPoint) h)

/-- The number of points that do not lie on one line with their two neighbours. -/
def turns : List GridPoint → Nat
  | p :: q :: r :: rest => (if GridPoint.collinear p q r then 0 else 1) + turns (q :: r :: rest)
  | _ => 0

/-- The number of kinks. -/
def kinks (b : GridBoundary) : Nat := turns b.points

/-! ## Checks against a grid -/

variable {α : Type}

/-- The first point that is no node of the grid. -/
def outlier? (b : GridBoundary) (d : Grid α) : Option GridPoint :=
  b.points.find? fun p => d.numX < p.col || d.numY < p.row

def outlierFault (d : Grid α) (p : GridPoint) : Fault α :=
  .gridIndex p.col p.row d.numX d.numY

/-- The boundary runs from the first column to the last. -/
def spans (b : GridBoundary) (d : Grid α) : Bool :=
  b.points.head?.any (·.col = 0) && b.points.getLast?.any (·.col = d.numX)

/-- The columns never go back. -/
def ordered (b : GridBoundary) : Bool :=
  (neighbours b.points).all fun (p, q) => p.col ≤ q.col

/-- Checks that all points are nodes, and that they run from the first column to the last. -/
def validate (b : GridBoundary) (d : Grid α) : Except (Fault α) Unit :=
  match b.outlier? d with
  | some p => .error (outlierFault d p)
  | none =>
    if !b.spans d then .error (.param (.gridSpan d.numX))
    else if !b.ordered then .error (.param .unorderedGrid)
    else .ok ()

variable [Scalar α]

/-- The place of a node in the plane. -/
@[specialize] def place (d : Grid α) (p : GridPoint) : Point α :=
  ⟨Scalar.ofNat p.col * d.xSpacing, Scalar.ofNat p.row * d.ySpacing⟩

/-- The boundary in the plane. -/
@[specialize] def toBoundary (b : GridBoundary) (d : Grid α) :
    Except (Fault α) (Boundary α) :=
  match b.outlier? d with
  | some p => .error (outlierFault d p)
  | none => Boundary.ofPoints (b.points.map (place d))

end GridBoundary

namespace Machine

variable {m : Type → Type} [Monad m] (M : Machine m)

/-- The number of points that do not lie on one line with their two neighbours. -/
@[specialize] def turns : List GridPoint → m Nat
  | p :: q :: r :: rest => do
    let straight ← M.collinear p q r
    let others ← turns (q :: r :: rest)
    return (if straight then 0 else 1) + others
  | _ => return 0

/-- The number of kinks. -/
@[inline] def kinks (b : GridBoundary) : m Nat := M.turns b.points

end Machine

theorem GridBoundary.turns_ideal (l : List GridPoint) : (Machine.ideal.turns l).run = turns l := by
  fun_induction turns l with
  | case1 p q r rest ih =>
    rw [← ih]
    rfl
  | case2 l hl =>
    unfold Machine.turns
    split
    · exact absurd rfl (hl _ _ _ _)
    · rfl

theorem GridBoundary.kinks_ideal (b : GridBoundary) : (Machine.ideal.kinks b).run = b.kinks :=
  turns_ideal b.points

end BoundaryAtlas
