import BoundaryAtlas.Envelope.Curve

/-!
# Envelopes

An upper and a lower curve bound the traces that are labeled positive.
-/

namespace BoundaryAtlas

/-- The anchors of the two curves, not checked. -/
structure EnvelopeAnchors (α : Type) where
  upper : List (Point α)
  lower : List (Point α)
  deriving DecidableEq, Repr

/-- An upper and a lower curve. -/
structure Envelope (α : Type) where
  upper : Curve α
  lower : Curve α
  deriving DecidableEq, Repr

namespace Envelope

variable {α : Type} [Scalar α]

/-- Builds the upper curve first. -/
def ofAnchors (s : EnvelopeAnchors α) : Except (Fault α) (Envelope α) := do
  return ⟨← Curve.ofAnchors s.upper, ← Curve.ofAnchors s.lower⟩

def toAnchors (e : Envelope α) : EnvelopeAnchors α := ⟨e.upper.anchors, e.lower.anchors⟩

/-- The anchor at a whole `x`, with `y` in tenths. -/
def anchor (x tenths : Nat) : Point α := ⟨Scalar.ofNat x, Scalar.ofDecimal tenths 1⟩

/-- The reference envelope over `[0, 20]`. -/
def canonical : Envelope α where
  upper := ⟨[anchor 0 10, anchor 8 9, anchor 14 6, anchor 20 2], by simp⟩
  lower := ⟨[anchor 0 5, anchor 5 3, anchor 12 2, anchor 20 1], by simp⟩

/-- Checks that one curve has values on all of `[start, stop]`. -/
def curveCovers (side : Side) (c : Curve α) (start stop : α) : Except (Fault α) Unit :=
  if start < c.domain.lo ∨ c.domain.hi < stop then
    .error (.envelope (.uncovered side c.domain.lo c.domain.hi start stop))
  else .ok ()

/-- Checks that both curves have values on all of `[start, stop]`, the upper one first. -/
def requireCover (e : Envelope α) (start stop : α) : Except (Fault α) Unit := do
  curveCovers .upper e.upper start stop
  curveCovers .lower e.lower start stop

end Envelope

end BoundaryAtlas
