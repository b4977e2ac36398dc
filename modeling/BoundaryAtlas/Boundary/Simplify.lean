import BoundaryAtlas.Boundary.Basic

/-!
# From dense samples to a boundary

A sample is dropped if it lies near the chord from the last kept sample to the sample
after it. The first and the last sample are always kept.
-/

namespace BoundaryAtlas.Boundary

variable {α : Type} [Scalar α] [HasSqrt α]

/-- The distance of `q` from the line through `p` and `r`, or from `p` if they coincide. -/
@[specialize] def chordDistance (p q r : Point α) : α :=
  let chord := (r - p).norm
  if Scalar.ofNat 0 < chord then Scalar.abs (Point.cross (q - p) (r - p)) / chord
  else (q - p).norm

/-- The samples to keep after `kept`, the last one that was kept. -/
@[specialize] def keptAfter (tol : α) (kept : Point α) : List (Point α) → List (Point α)
  | q :: r :: rest =>
    if tol < chordDistance kept q r then q :: keptAfter tol q (r :: rest)
    else keptAfter tol kept (r :: rest)
  | rest => rest

/-- The boundary through the samples that are kept. -/
@[specialize] def ofSamples (samples : List (Point α)) (tol : α) :
    Except (Fault α) (Boundary α) :=
  match samples with
  | [] => .error (.param .noSamples)
  | p :: rest => ofPoints (p :: keptAfter tol p rest)

/-! ## Counting kinks -/

/-- The legs between neighbours, without those of no length. -/
@[specialize] def legs (points : List (Point α)) : List (Point α) :=
  ((neighbours points).map fun (p, q) => q - p).filter fun d => Scalar.ofNat 0 < d.norm

/-- The sine of the turn from `u` to `v`. -/
@[specialize] def turnSine (u v : Point α) : α :=
  Point.cross u v / (u.norm * v.norm)

/-- The number of turns whose sine is larger than `tol`. -/
@[specialize] def turnCount (b : Boundary α) (tol : α) : Nat :=
  ((neighbours (legs b.points)).filter fun (u, v) => tol < Scalar.abs (turnSine u v)).length

end BoundaryAtlas.Boundary
