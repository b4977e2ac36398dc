/-!
# What can go wrong

A fault either rules out one boundary, and a run goes on with the next one, or it stops
the whole run. The text of a fault is in `Fault.Message`.
-/

namespace BoundaryAtlas

/-- The two curves of an envelope. -/
inductive Side where
  | upper
  | lower
  deriving DecidableEq, Repr

/-- Why a list of anchors is no envelope, or an envelope no use for a run. -/
inductive EnvelopeFault (α : Type) where
  | fewAnchors (count : Nat)
  | infiniteAnchor
  | unorderedAnchors
  /-- A curve is defined on `[lo, hi]`, and traces run over `[from, to]`. -/
  | uncovered (side : Side) (lo hi start stop : α)
  /-- A reason in a caller's own words. -/
  | stated (reason : String)
  deriving DecidableEq, Repr

/-- Why a grid is no use. -/
inductive GridFault (α : Type) where
  | xSpacing (value : α)
  | ySpacing (value : α)
  | noCells (numX numY : Nat)
  /-- The grid ends at `width`, and traces run up to `stop`. -/
  | horizon (width stop : α)
  /-- A reason in a caller's own words. -/
  | stated (reason : String)
  deriving DecidableEq, Repr

/-- Why a parameter is refused. -/
inductive ParamFault (α : Type) where
  | noPoints
  | infinitePoint
  | unorderedPoints
  | noSamples
  | gridSpan (numX : Nat)
  | unorderedGrid
  | epsilon (value : α)
  | fewSamples (count : Nat)
  | rateBound (value : α)
  | stateBounds
  | horizon (value : α)
  | tooManyKinks (kinks maxKinks columns : Nat)
  | noAcceptedDraw (kinks draws : Nat)
  | lineOutsideBox
  | lineLabeledNegative (labeler : String)
  /-- The workers of a run could not be started. -/
  | workers (reason : String)
  /-- A reason in a caller's own words. -/
  | stated (reason : String)
  deriving DecidableEq, Repr

/-- Everything that the library can answer in place of a result. -/
inductive Fault (α : Type) where
  | gridIndex (col row numX numY : Nat)
  /-- The time `t` lies outside the domain `[lo, hi]` of a boundary. -/
  | outsideDomain (t lo hi : α)
  /-- No trace exists, and already the samples up to `sample` have none. -/
  | unsatisfiable (sample : Nat)
  | solverTimeout (elapsedMs : Nat)
  | envelope (reason : EnvelopeFault α)
  | grid (reason : GridFault α)
  | param (reason : ParamFault α)
  | cancelled
  deriving DecidableEq, Repr

namespace Fault

/-- The fault rules out one boundary and says nothing about the others. -/
def isLocal {α : Type} : Fault α → Bool
  | .gridIndex .. | .outsideDomain .. | .unsatisfiable _ | .solverTimeout _ => true
  | _ => false

end Fault

end BoundaryAtlas
