import BoundaryAtlas.Boundary.Simplify
import BoundaryAtlas.Pipeline.Basic

/-!
# A boundary that should be positive

The line `y = 0.75 - 0.03 x` is sampled over the box and simplified. The points inside the
box are a boundary that a labeler is expected to accept.
-/

namespace BoundaryAtlas.Pipeline

variable {α σ : Type} [Scalar α]

/-- The samples are `lineSamples + 1`, both ends included. -/
def lineSamples : Nat := 200

/-- Sample `i` of the line. -/
def linePoint (box : Box α) (i : Nat) : Point α :=
  let x := (box.x.hi - box.x.lo) * (Scalar.ofNat i / Scalar.ofNat lineSamples) + box.x.lo
  ⟨x, -Scalar.ofDecimal 3 2 * x + Scalar.ofDecimal 75 2⟩

/-- The simplified line, cut to the box. -/
def referenceLine [HasSqrt α] (box : Box α) : Except (Fault α) (Boundary α) := do
  let samples := (List.range (lineSamples + 1)).map (linePoint box)
  let dense ← Boundary.ofSamples samples (Scalar.ofDecimal 1 9)
  let inside := dense.points.filter box.contains
  if inside.isEmpty then throw (.param .lineOutsideBox)
  Boundary.ofPoints inside

/-- The reference line, if the pipeline labels it positive. -/
def positiveReference [HasSqrt α] (p : Pipeline α σ) (s : Session α σ) :
    Except (Fault α) (Boundary α) × Session α σ :=
  match referenceLine p.box with
  | .error fault => (.error fault, s)
  | .ok b =>
    match p.label b s with
    | (.error fault, s) => (.error fault, s)
    | (.ok (_, true), s) => (.ok b, s)
    | (.ok (_, false), s) => (.error (.param (.lineLabeledNegative p.labeler.name)), s)

end BoundaryAtlas.Pipeline
