import BoundaryAtlas.Trace.Chain

/-!
# From a boundary to a trace

A trace runs over `[0, horizon]` and stays near a boundary, under the dynamics of its
settings. The solver can be any function that answers a system of constraints.
-/

namespace BoundaryAtlas

/-- Samples of a trajectory: times and states. -/
abbrev Trace (α : Type) := List (Point α)

/-- The answer of a solver as a trace with the given times. -/
def SolverAnswer.toTrace {α : Type} (times : List α) : SolverAnswer α → Except (Fault α) (Trace α)
  | .feasible trajectory => .ok (List.zipWith Point.mk times trajectory.states)
  | .infeasible sample => .error (.unsatisfiable sample)
  | .timedOut elapsedMs => .error (.solverTimeout elapsedMs)

/-- Settings and a solver. -/
structure Synthesizer (α : Type) where
  config : TraceConfig α
  solve : TraceConstraints α → SolverAnswer α

namespace Synthesizer

variable {α : Type} [Scalar α]

/-- A synthesizer with the solver for chains. -/
def chain (config : TraceConfig α) (solver : SolverConfig α) : Synthesizer α :=
  ⟨config, fun s => Chain.solve s solver⟩

end Synthesizer

/-- How far a solution may be off its constraints. -/
def solutionSlack {α : Type} [Scalar α] : α := Scalar.ofDecimal 1 9

/-- A solution meets its constraints, up to the slack. -/
def SolverAnswer.isSound {α : Type} [Scalar α] (answer : SolverAnswer α)
    (constraints : TraceConstraints α) : Bool :=
  match answer with
  | .feasible solution => constraints.isMetBy solution solutionSlack
  | _ => true

namespace Machine

variable {m : Type → Type} [Monad m] (M : Machine m) {α : Type} [Scalar α]

/-- A trace that tracks `b` from zero to the horizon. The solver's answer has to be sound. -/
@[specialize] def synthesize (s : Synthesizer α) (b : Boundary α) (horizon : α) :
    ExceptT (Fault α) m (Trace α) := do
  s.config.validate
  if !(Scalar.isFinite horizon && decide (Scalar.ofNat 0 < horizon)) then
    throw (.param (.horizon horizon))
  let times := s.config.times horizon
  let constraints ← M.constraints b times s.config
  let answer := s.solve constraints
  M.check (answer.isSound constraints)
  answer.toTrace times

end Machine

namespace Synthesizer

variable {α : Type} [Scalar α]

def synthesize (s : Synthesizer α) (b : Boundary α) (horizon : α) : Except (Fault α) (Trace α) :=
  (Machine.ideal.synthesize s b horizon).run.run

theorem synthesize_def (s : Synthesizer α) (b : Boundary α) (horizon : α) :
    s.synthesize b horizon = (do
      s.config.validate
      if !(Scalar.isFinite horizon && decide (Scalar.ofNat 0 < horizon)) then
        throw (.param (.horizon horizon))
      let times := s.config.times horizon
      let constraints ← TraceConstraints.ofBoundary b times s.config
      (s.solve constraints).toTrace times) := by
  unfold synthesize Machine.synthesize
  rw [Machine.run_bind]
  refine bind_congr fun _ => ?_
  dsimp only
  split
  · rfl
  · rw [Machine.run_bind]
    rfl

end Synthesizer

/-- A trace with default settings but for the width and the number of samples. -/
def synthesize {α : Type} [Scalar α] (b : Boundary α) (epsilon : α) (numPoints : Nat)
    (horizon : α) : Except (Fault α) (Trace α) :=
  let config : TraceConfig α := { TraceConfig.default with epsilon, numPoints }
  (Synthesizer.chain config SolverConfig.default).synthesize b horizon

end BoundaryAtlas
