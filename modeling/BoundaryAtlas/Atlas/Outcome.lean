import BoundaryAtlas.Grid.Search
import BoundaryAtlas.Pipeline.Basic

/-!
# Labeling grid boundaries

The outcome for a grid boundary is a record with its label, or the fault that left it without
one.
-/

namespace BoundaryAtlas

/-- A labeled grid boundary. -/
structure Record where
  boundary : GridBoundary
  kinks : Nat
  label : Bool
  deriving DecidableEq, Repr

/-- What came of one grid boundary. -/
inductive Outcome (α : Type) where
  | labeled (record : Record)
  | failed (boundary : GridBoundary) (fault : Fault α)
  deriving DecidableEq, Repr

namespace Outcome

variable {α : Type}

def record? : Outcome α → Option Record
  | .labeled record => some record
  | .failed .. => none

def boundary : Outcome α → GridBoundary
  | .labeled record => record.boundary
  | .failed boundary _ => boundary

end Outcome

namespace Pipeline

variable {α σ : Type} [Scalar α]

/-- Checks everything that the boundaries of a run have in common: the grid, the length of the
traces, the settings, and the labeler's domain. -/
def preflight (p : Pipeline α σ) (d : Grid α) : Except (Fault α) Unit := do
  d.validate
  if domainSlack < Scalar.abs (p.horizon - d.width) then
    throw (.grid (.horizon d.width p.horizon))
  p.validate

end Pipeline

namespace Machine

variable {m : Type → Type} [Monad m] (M : Machine m) {α σ : Type} [Scalar α]

/-- Places the boundary in the plane and labels it. -/
@[specialize] def labelGrid (p : Pipeline α σ) (d : Grid α) (b : GridBoundary)
    (s : Session α σ) : m (Outcome α × Session α σ) :=
  let ⟨labeler, canvas, attempts⟩ := s
  let s := ⟨labeler, canvas, attempts + 1⟩
  match b.toBoundary d with
  | .error fault => return (.failed b fault, s)
  | .ok boundary => do
    match ← M.label p boundary s with
    | (.error fault, s) => return (.failed b fault, s)
    | (.ok (_, verdict), s) => return (.labeled ⟨b, ← M.kinks b, verdict⟩, s)

/-- Labels grid boundaries one after the other. -/
@[specialize] def labelAll (p : Pipeline α σ) (d : Grid α) (boundaries : List GridBoundary)
    (s : Session α σ) : m (Array (Outcome α) × Session α σ) :=
  boundaries.foldlM (fun (outcomes, s) b => do
    let (outcome, s) ← M.labelGrid p d b s
    return (outcomes.push outcome, s)) (#[], s)

/-- The outcomes of all boundaries with `kinks` kinks, in order. -/
@[specialize] def outcomes (p : Pipeline α σ) (d : Grid α) (kinks : Nat) (s : Session α σ) :
    m (Except (Fault α) (List (Outcome α) × Session α σ)) :=
  match p.preflight d with
  | .error fault => return .error fault
  | .ok () => do
    let boundaries ← M.toList (← M.search d kinks)
    let (outcomes, s) ← M.labelAll p d boundaries s
    return .ok (outcomes.toList, s)

/-- The records of all boundaries with `kinks` kinks that have a label, in order. -/
@[specialize] def enumerate (p : Pipeline α σ) (d : Grid α) (kinks : Nat) (s : Session α σ) :
    m (Except (Fault α) (List Record × Session α σ)) := do
  match ← M.outcomes p d kinks s with
  | .error fault => return .error fault
  | .ok (outcomes, s) => return .ok (outcomes.filterMap Outcome.record?, s)

end Machine

namespace Pipeline

variable {α σ : Type} [Scalar α]

def labelGrid (p : Pipeline α σ) (d : Grid α) (b : GridBoundary) (s : Session α σ) :
    Outcome α × Session α σ :=
  (Machine.ideal.labelGrid p d b s).run

def labelAll (p : Pipeline α σ) (d : Grid α) (boundaries : List GridBoundary) (s : Session α σ) :
    Array (Outcome α) × Session α σ :=
  (Machine.ideal.labelAll p d boundaries s).run

def outcomes (p : Pipeline α σ) (d : Grid α) (kinks : Nat) (s : Session α σ) :
    Except (Fault α) (List (Outcome α) × Session α σ) :=
  (Machine.ideal.outcomes p d kinks s).run

def records (p : Pipeline α σ) (d : Grid α) (kinks : Nat) (s : Session α σ) :
    Except (Fault α) (List Record × Session α σ) :=
  (Machine.ideal.enumerate p d kinks s).run

theorem labelGrid_def (p : Pipeline α σ) (d : Grid α) (b : GridBoundary) (s : Session α σ) :
    p.labelGrid d b s =
      let s : Session α σ := ⟨s.labeler, s.canvas, s.attempts + 1⟩
      match b.toBoundary d with
      | .error fault => (.failed b fault, s)
      | .ok boundary =>
        match p.label boundary s with
        | (.error fault, s) => (.failed b fault, s)
        | (.ok (_, verdict), s) => (.labeled ⟨b, b.kinks, verdict⟩, s) := by
  unfold labelGrid Machine.labelGrid label
  cases b.toBoundary d with
  | error fault => rfl
  | ok boundary =>
    dsimp only
    rw [Id.run_bind]
    rcases (Machine.ideal.label p boundary ⟨s.labeler, s.canvas, s.attempts + 1⟩).run with
      ⟨_ | ⟨_, verdict⟩, s⟩
    · rfl
    · rw [← b.kinks_ideal]
      rfl

theorem labelAll_def (p : Pipeline α σ) (d : Grid α) (boundaries : List GridBoundary)
    (s : Session α σ) :
    p.labelAll d boundaries s =
      boundaries.foldl (fun state b => (state.1.push (p.labelGrid d b state.2).1,
        (p.labelGrid d b state.2).2)) (#[], s) :=
  List.idRun_foldlM ..

theorem outcomes_def (p : Pipeline α σ) (d : Grid α) (kinks : Nat) (s : Session α σ) :
    p.outcomes d kinks s = (do
      p.preflight d
      let (outcomes, s) := p.labelAll d (Search.new d kinks).toList s
      return (outcomes.toList, s)) := by
  unfold outcomes Machine.outcomes
  cases p.preflight d <;> rfl

theorem records_def (p : Pipeline α σ) (d : Grid α) (kinks : Nat) (s : Session α σ) :
    p.records d kinks s = (do
      let (outcomes, s) ← p.outcomes d kinks s
      return (outcomes.filterMap Outcome.record?, s)) := by
  rw [records, Machine.enumerate, Id.run_bind, outcomes]
  cases (Machine.ideal.outcomes p d kinks s).run <;> rfl

end Pipeline

end BoundaryAtlas
