import BoundaryAtlas.Atlas.Outcome

/-!
# Counting outcomes
-/

namespace BoundaryAtlas

/-- How many outcomes of each sort there were. -/
structure Tally where
  labeled : Nat
  positives : Nat
  infeasible : Nat
  timedOut : Nat
  invalid : Nat
  deriving DecidableEq, Repr

namespace Tally

def zero : Tally := ⟨0, 0, 0, 0, 0⟩

instance : Add Tally :=
  ⟨fun s t => ⟨s.labeled + t.labeled, s.positives + t.positives, s.infeasible + t.infeasible,
    s.timedOut + t.timedOut, s.invalid + t.invalid⟩⟩

/-- The tally of a single outcome. -/
def ofOutcome {α : Type} : Outcome α → Tally
  | .labeled record => ⟨1, if record.label then 1 else 0, 0, 0, 0⟩
  | .failed _ (.unsatisfiable _) => ⟨0, 0, 1, 0, 0⟩
  | .failed _ (.solverTimeout _) => ⟨0, 0, 0, 1, 0⟩
  | .failed .. => ⟨0, 0, 0, 0, 1⟩

def note {α : Type} (t : Tally) (outcome : Outcome α) : Tally := t + ofOutcome outcome

/-- The boundaries that have no label. -/
def skipped (t : Tally) : Nat := t.infeasible + t.timedOut + t.invalid

/-- All outcomes that were counted. -/
def total (t : Tally) : Nat := t.labeled + t.skipped

end Tally

namespace Machine

variable {m : Type → Type} [Monad m] (M : Machine m)

/-- The tally, with all its counts in words. -/
@[specialize] def tally (t : Tally) : m Tally := do
  return ⟨← M.size t.labeled, ← M.size t.positives, ← M.size t.infeasible, ← M.size t.timedOut,
    ← M.size t.invalid⟩

/-- Counts one more outcome. -/
@[specialize] def note {α : Type} (t : Tally) (outcome : Outcome α) : m Tally :=
  M.tally (t.note outcome)

end Machine

end BoundaryAtlas
