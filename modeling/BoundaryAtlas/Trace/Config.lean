import BoundaryAtlas.Fault
import BoundaryAtlas.Scalar

/-!
# Parameters of trace synthesis
-/

namespace BoundaryAtlas

/-- What happens at sample times beyond the ends of a boundary. -/
inductive BeyondEnds where
  | reject
  /-- The outer segments go on. -/
  | extend
  deriving DecidableEq, Repr, Inhabited

/-- The width of the tube, the sampling and the dynamics of a trace. -/
structure TraceConfig (α : Type) where
  epsilon : α
  numPoints : Nat
  /-- The largest step between two samples, if steps are bounded. -/
  rateBound? : Option α
  stateMin : α
  stateMax : α
  beyondEnds : BeyondEnds
  deriving DecidableEq, Repr

namespace TraceConfig

variable {α : Type} [Scalar α]

def default : TraceConfig α where
  epsilon := Scalar.ofDecimal 1 2
  numPoints := 200
  rateBound? := none
  stateMin := Scalar.ofNat 0
  stateMax := Scalar.ofNat 1
  beyondEnds := .reject

/-- The state box is finite and not empty. -/
def stateBoxOk (c : TraceConfig α) : Bool :=
  Scalar.isFinite c.stateMin && Scalar.isFinite c.stateMax && !decide (c.stateMax < c.stateMin)

/-- Checks the width first, then the number of samples, the step bound and the state box. -/
def validate (c : TraceConfig α) : Except (Fault α) Unit := do
  if !(Scalar.isFinite c.epsilon && decide (Scalar.ofNat 0 < c.epsilon)) then
    throw (.param (.epsilon c.epsilon))
  if c.numPoints < 2 then throw (.param (.fewSamples c.numPoints))
  if let some rate := c.rateBound? then
    if !(Scalar.isFinite rate && decide (Scalar.ofNat 0 ≤ rate)) then
      throw (.param (.rateBound rate))
  if !c.stateBoxOk then throw (.param .stateBounds)

/-- Sample time `i`. The last one is the horizon itself. -/
@[specialize] def timeAt (c : TraceConfig α) (horizon : α) (i : Nat) : α :=
  if i + 1 = c.numPoints then horizon
  else horizon * Scalar.ofNat i / Scalar.ofNat (c.numPoints - 1)

/-- The evenly spaced times from zero to the horizon. -/
@[specialize] def times (c : TraceConfig α) (horizon : α) : List α :=
  (List.range c.numPoints).map (c.timeAt horizon)

end TraceConfig

end BoundaryAtlas
