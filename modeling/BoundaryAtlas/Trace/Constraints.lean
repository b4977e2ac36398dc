import BoundaryAtlas.Boundary.Value
import BoundaryAtlas.Trace.Config

/-!
# The constraints on a trace

Each sample has an interval that its state must lie in: the tube around the boundary, cut
to the state box. Two samples in a row differ by a bounded step.
-/

namespace BoundaryAtlas

/-- One sample: the boundary's value there, and the interval for the state. -/
structure TubeSample (α : Type) where
  target : α
  range : Interval α
  deriving DecidableEq, Repr

/-- The constraints on the states of one trace. -/
structure TraceConstraints (α : Type) where
  samples : List (TubeSample α)
  rate? : Option α
  epsilon : α
  stateMin : α
  stateMax : α
  deriving DecidableEq, Repr

/-- States, and the steps between them. -/
structure Trajectory (α : Type) where
  states : List α
  steps : List α
  deriving DecidableEq, Repr

namespace TraceConstraints

variable {α : Type} [Scalar α]

/-- The interval for a state whose target is `v`. -/
@[specialize] def tube (c : TraceConfig α) (v : α) : TubeSample α :=
  ⟨v, Scalar.larger (v - c.epsilon) c.stateMin, Scalar.smaller (v + c.epsilon) c.stateMax⟩

/-- The state lies in the state box and in the tube, up to `tol`. -/
def allowsState (s : TraceConstraints α) (tol x target : α) : Bool :=
  decide (s.stateMin - tol ≤ x) && decide (x ≤ s.stateMax + tol) &&
    decide (Scalar.abs (x - target) ≤ s.epsilon + tol)

/-- The step `u` leads from `x` to `y` and is within the bound, up to `tol`. -/
def allowsStep (s : TraceConstraints α) (tol x y u : α) : Bool :=
  decide (Scalar.abs (y - (x + u)) ≤ tol) &&
    match s.rate? with
    | none => true
    | some rate => decide (Scalar.abs u ≤ rate + tol)

/-- Whether a trajectory meets every constraint up to `tol`. -/
def isMetBy (s : TraceConstraints α) (sol : Trajectory α) (tol : α) : Bool :=
  sol.states.length = s.samples.length && sol.steps.length + 1 = s.samples.length &&
    (sol.states.zip s.samples).all (fun (x, sample) => s.allowsState tol x sample.target) &&
    (sol.steps.zip (neighbours sol.states)).all (fun (u, x, y) => s.allowsStep tol x y u)

end TraceConstraints

namespace Machine

variable {m : Type → Type} [Monad m] (M : Machine m) {α : Type} [Scalar α]

/-- The boundary's value at a sample time. -/
@[specialize] def target (b : Boundary α) (c : TraceConfig α) (t : α) : ExceptT (Fault α) m α :=
  match c.beyondEnds with
  | .reject => M.valueAt b t
  | .extend => M.extendedValueAt b t

/-- The constraints for tracking `b` at the given times. -/
@[specialize] def constraints (b : Boundary α) (times : List α) (c : TraceConfig α) :
    ExceptT (Fault α) m (TraceConstraints α) := do
  let targets ← times.mapM (M.target b c)
  return ⟨targets.map (TraceConstraints.tube c), c.rateBound?, c.epsilon, c.stateMin, c.stateMax⟩

end Machine

namespace TraceConstraints

variable {α : Type} [Scalar α]

def target (b : Boundary α) (c : TraceConfig α) (t : α) : Except (Fault α) α :=
  (Machine.ideal.target b c t).run.run

def ofBoundary (b : Boundary α) (times : List α) (c : TraceConfig α) :
    Except (Fault α) (TraceConstraints α) :=
  (Machine.ideal.constraints b times c).run.run

theorem target_def (b : Boundary α) (c : TraceConfig α) (t : α) :
    target b c t = match c.beyondEnds with
      | .reject => b.valueAt t
      | .extend => b.extendedValueAt t := by
  unfold target Machine.target
  cases c.beyondEnds <;> rfl

theorem ofBoundary_def (b : Boundary α) (times : List α) (c : TraceConfig α) :
    ofBoundary b times c = do
      let targets ← times.mapM (target b c)
      return ⟨targets.map (tube c), c.rateBound?, c.epsilon, c.stateMin, c.stateMax⟩ := by
  rw [ofBoundary, Machine.constraints, Machine.run_bind, Machine.run_mapM]
  rfl

end TraceConstraints

end BoundaryAtlas
