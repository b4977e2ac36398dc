import BoundaryAtlas.Envelope.Basic
import BoundaryAtlas.Labeler.Basic

/-!
# The polygon labeler

A trace is positive if it stays below the upper curve, and if it is above the lower curve at
every sample, or comes to be above that value later.
-/

namespace BoundaryAtlas

/-- What the lower curve asks for. -/
inductive LowerDemand where
  /-- Every sample's lower value is reached at that sample or a later one. -/
  | eventually
  /-- Every sample is at its lower value or above. -/
  | pointwise
  deriving DecidableEq, Repr, Inhabited

/-- An envelope and what its lower curve asks for. -/
structure EnvelopeRule (α : Type) where
  envelope : Envelope α
  demand : LowerDemand
  deriving DecidableEq, Repr

namespace EnvelopeRule

variable {α : Type} [Scalar α]

/-- Every sample is at the upper curve or below. -/
@[specialize] def belowUpper (o : EnvelopeRule α) (trace : Trace α) : Bool :=
  trace.all fun p => (o.envelope.upper.eval? p.x).any fun u => p.y ≤ u

/-- The value `y` reaches the lower curve at `x`. -/
@[specialize] def reachesLower (o : EnvelopeRule α) (x y : α) : Bool :=
  (o.envelope.lower.eval? x).any fun l => l ≤ y

/-- The larger of a value and the largest one after it. -/
@[specialize] def raise (y : α) (after? : Option α) : α :=
  match after? with
  | some m => Scalar.larger m y
  | none => y

/-- For each sample, the largest value from it on. -/
@[specialize] def suffixMaxima : Trace α → List α
  | [] => []
  | p :: rest =>
    let maxima := suffixMaxima rest
    raise p.y (maxima.head?.or Scalar.negInfinity?) :: maxima

/-- The trace meets the lower curve as the demand says. -/
@[specialize] def aboveLower (o : EnvelopeRule α) (trace : Trace α) : Bool :=
  match o.demand with
  | .pointwise => trace.all fun p => o.reachesLower p.x p.y
  | .eventually => (trace.zip (suffixMaxima trace)).all fun (p, m) => o.reachesLower p.x m

@[specialize] def classify (o : EnvelopeRule α) (trace : Trace α) : Bool :=
  o.belowUpper trace && o.aboveLower trace

/-- The labeler. It refuses traces that leave the domain of a curve. -/
def labeler (o : EnvelopeRule α) : Labeler α Unit where
  name := "polygon"
  parallelSafe := true
  checkDomain := o.envelope.requireCover
  classify := fun _ trace => (o.classify trace, ())

end EnvelopeRule

end BoundaryAtlas
