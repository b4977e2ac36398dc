import BoundaryAtlas.Boundary.Value

/-!
# Piecewise linear curves

A curve goes straight from anchor to anchor, and `x` grows strictly. Outside its anchors it
has no value.
-/

namespace BoundaryAtlas

/-- A function through two anchors or more. -/
structure Curve (α : Type) where
  anchors : List (Point α)
  two_le : 2 ≤ anchors.length
  deriving DecidableEq, Repr

namespace Curve

variable {α : Type}

theorem anchors_ne_nil (c : Curve α) : c.anchors ≠ [] := by
  intro h
  have := c.two_le
  simp [h] at this

/-- The interval from the first anchor to the last. -/
def domain (c : Curve α) : Interval α :=
  ⟨(c.anchors.head c.anchors_ne_nil).x, (c.anchors.getLast c.anchors_ne_nil).x⟩

variable [Scalar α]

/-- Checks that there are two anchors, that all are finite, and that `x` grows strictly. -/
def ofAnchors (anchors : List (Point α)) : Except (Fault α) (Curve α) :=
  if h : anchors.length < 2 then .error (.envelope (.fewAnchors anchors.length))
  else if anchors.any fun p => !p.isFinite then .error (.envelope .infiniteAnchor)
  else if (neighbours anchors).any fun (p, q) => q.x ≤ p.x then
    .error (.envelope .unorderedAnchors)
  else .ok ⟨anchors, Nat.not_lt.mp h⟩

/-- The last two anchors of which the left one is not beyond `x`, or else the first two. -/
@[specialize] def segmentAt? (x : α) : List (Point α) → Option (Point α × Point α)
  | [p, q] => some (p, q)
  | p :: q :: rest => if q.x ≤ x then segmentAt? x (q :: rest) else some (p, q)
  | _ => none

/-- The value at `x`, if `x` lies in the domain. -/
@[specialize] def eval? (c : Curve α) (x : α) : Option α :=
  if c.domain.lo ≤ x ∧ x ≤ c.domain.hi then
    (segmentAt? x c.anchors).map fun (p, q) => Boundary.onLine p q p x
  else none

end Curve

end BoundaryAtlas
