import BoundaryAtlas.Trace.Constraints

/-!
# Solving a chain of intervals

A sweep forward finds, for each sample, the states that can be reached from the samples
before it. The first empty set proves that there is no trace. A sweep backward then picks
the state nearest to the target among those from which the chosen next state can be reached.

A clock is looked at every 64 samples. It is part of the settings, as a function from the
sweep's step to the milliseconds gone by.
-/

namespace BoundaryAtlas

/-- Settings of the solver. -/
structure SolverConfig (α : Type) where
  timeoutMs? : Option Nat
  /-- An interval may be inverted by this much before it counts as empty. -/
  slack : α
  /-- The milliseconds gone by at a step. -/
  clock : Nat → Nat

def SolverConfig.default {α : Type} [Scalar α] : SolverConfig α :=
  ⟨none, Scalar.ofDecimal 1 12, fun _ => 0⟩

/-- What a solver answers. -/
inductive SolverAnswer (α : Type) where
  | feasible (solution : Trajectory α)
  /-- The samples up to `sample` have no states that fit together. -/
  | infeasible (sample : Nat)
  | timedOut (elapsedMs : Nat)
  deriving DecidableEq, Repr

namespace Chain

variable {α : Type} [Scalar α]

/-- The steps between two looks at the clock. -/
def clockPeriod : Nat := 64

/-- The time gone by, if it is found to be over the limit at this step. -/
def overdue? (c : SolverConfig α) (step : Nat) : Option Nat :=
  match c.timeoutMs? with
  | none => none
  | some limit =>
    if step % clockPeriod = 0 ∧ limit ≤ c.clock step then some (c.clock step) else none

/-- The part of `range` within one step of `near`. -/
@[specialize] def within (rate? : Option α) (near range : Interval α) : Interval α :=
  match rate? with
  | none => range
  | some rate => ⟨Scalar.larger range.lo (near.lo - rate), Scalar.smaller range.hi (near.hi + rate)⟩

/-- An interval that is inverted within the slack becomes its upper end. -/
@[specialize] def collapse (r : Interval α) : Interval α :=
  if r.hi < r.lo then ⟨r.hi, r.hi⟩ else r

/-- The states of sample `i` and those after it that can be reached. -/
@[specialize] def sweepForward (c : SolverConfig α) (rate? : Option α) :
    (i : Nat) → (before? : Option (Interval α)) → List (TubeSample α) →
    Except (SolverAnswer α) (List (Interval α))
  | _, _, [] => .ok []
  | i, before?, s :: rest =>
    match overdue? c i with
    | some elapsed => .error (.timedOut elapsed)
    | none =>
      let range := match before? with
        | none => s.range
        | some before => within rate? before s.range
      if range.hi + c.slack < range.lo then .error (.infeasible i)
      else
        let range := collapse range
        match sweepForward c rate? (i + 1) (some range) rest with
        | .ok ranges => .ok (range :: ranges)
        | .error stop => .error stop

/-- The state of `range` that is nearest to the target. -/
@[specialize] def nearest (target : α) (range : Interval α) : α :=
  Scalar.smaller (Scalar.larger target range.lo) range.hi

/-- The states from sample `i` on, chosen from the last one back. -/
@[specialize] def sweepBackward (c : SolverConfig α) (rate? : Option α) (total : Nat) :
    (i : Nat) → List (α × Interval α) → Except (SolverAnswer α) (List α)
  | _, [] => .ok []
  | i, (target, range) :: rest =>
    match sweepBackward c rate? total (i + 1) rest with
    | .error stop => .error stop
    | .ok [] => .ok [nearest target range]
    | .ok (y :: ys) =>
      match overdue? c (total + i) with
      | some elapsed => .error (.timedOut elapsed)
      | none => .ok (nearest target (within rate? ⟨y, y⟩ range) :: y :: ys)

/-- The step bound, or a bound that no step exceeds. -/
def stepBound? (s : TraceConstraints α) : Option α := s.rate? <|> Scalar.infinity?

/-- Both sweeps. -/
@[specialize] def sweeps (s : TraceConstraints α) (c : SolverConfig α) :
    Except (SolverAnswer α) (List α) := do
  let ranges ← sweepForward c (stepBound? s) 0 none s.samples
  sweepBackward c (stepBound? s) s.samples.length 0 ((s.samples.map (·.target)).zip ranges)

/-- Finds states that meet the constraints, exactly if the slack is zero. -/
@[specialize] def solve (s : TraceConstraints α) (c : SolverConfig α) : SolverAnswer α :=
  match sweeps s c with
  | .error stop => stop
  | .ok states => .feasible ⟨states, (neighbours states).map fun (x, y) => y - x⟩

end Chain

end BoundaryAtlas
