import Std.Data.ExtTreeMap
import BoundaryAtlas.Atlas.Tally

/-!
# The atlas

An atlas keeps the labels of grid boundaries, in the order of the boundaries, and a tally for
each number of kinks. Two atlases are equal if they have the same contents.
-/

namespace BoundaryAtlas

/-- The result of a run over one grid. -/
structure Atlas (α : Type) where
  grid : Grid α
  maxKinks : Nat
  labels : Std.ExtTreeMap GridBoundary Bool GridBoundary.cmp
  tallies : Std.ExtTreeMap Nat Tally

namespace Atlas

variable {α : Type}

def empty (grid : Grid α) (maxKinks : Nat) : Atlas α := ⟨grid, maxKinks, ∅, ∅⟩

/-- Adds a label, unless the boundary has one already. Answers whether it was added. -/
def insert (m : Atlas α) (r : Record) : Bool × Atlas α :=
  let ⟨grid, maxKinks, labels, tallies⟩ := m
  let (known, labels) := labels.containsThenInsertIfNew r.boundary r.label
  (!known, ⟨grid, maxKinks, labels, tallies⟩)

def get? (m : Atlas α) (b : GridBoundary) : Option Bool := m.labels[b]?

/-- The number of labels. -/
def size (m : Atlas α) : Nat := m.labels.size

/-- The number of positive labels. -/
def positives (m : Atlas α) : Nat :=
  m.labels.foldl (fun n _ label => if label then n + 1 else n) 0

def tally? (m : Atlas α) (kinks : Nat) : Option Tally := m.tallies[kinks]?

/-- The tallies of all numbers of kinks together. -/
def total (m : Atlas α) : Tally :=
  m.tallies.foldl (fun total _ t => total + t) Tally.zero

/-- Sets the tally for a number of kinks. -/
def setTally (m : Atlas α) (kinks : Nat) (t : Tally) : Atlas α :=
  { m with tallies := m.tallies.insert kinks t }

/-- Adds the label of an outcome, if there is one. -/
def insertOutcome (m : Atlas α) (outcome : Outcome α) : Atlas α :=
  match outcome with
  | .labeled record => (m.insert record).2
  | .failed .. => m

end Atlas

namespace Machine

variable {m : Type → Type} [Monad m] (M : Machine m) {α : Type}

/-- The labels in the order of the boundaries. Kinks are counted anew. -/
@[specialize] def records (atlas : Atlas α) : m (List Record) :=
  atlas.labels.toList.mapM fun (b, label) => do return ⟨b, ← M.kinks b, label⟩

@[specialize] def recordsWith (atlas : Atlas α) (kinks : Nat) : m (List Record) := do
  return (← M.records atlas).filter (·.kinks = kinks)

/-- Adds the outcomes of all boundaries with `kinks` kinks. -/
@[specialize] def addPass (atlas : Atlas α) (kinks : Nat) (outcomes : List (Outcome α)) :
    m (Atlas α) := do
  let tally ← outcomes.foldlM M.note Tally.zero
  return (outcomes.foldl Atlas.insertOutcome atlas).setTally kinks tally

end Machine

namespace Atlas

variable {α : Type}

def records (m : Atlas α) : List Record := (Machine.ideal.records m).run

def recordsWith (m : Atlas α) (kinks : Nat) : List Record := (Machine.ideal.recordsWith m kinks).run

def addPass (m : Atlas α) (kinks : Nat) (outcomes : List (Outcome α)) : Atlas α :=
  (Machine.ideal.addPass m kinks outcomes).run

theorem records_def (m : Atlas α) :
    m.records = m.labels.toList.map fun (b, label) => ⟨b, b.kinks, label⟩ := by
  rw [records, Machine.records, List.idRun_mapM]
  refine List.map_congr_left fun (b, label) _ => ?_
  dsimp only
  rw [← b.kinks_ideal]
  rfl

theorem recordsWith_def (m : Atlas α) (kinks : Nat) :
    m.recordsWith kinks = m.records.filter (·.kinks = kinks) := rfl

theorem addPass_def (m : Atlas α) (kinks : Nat) (outcomes : List (Outcome α)) :
    m.addPass kinks outcomes =
      (outcomes.foldl insertOutcome m).setTally kinks (outcomes.foldl Tally.note Tally.zero) := by
  rw [addPass, Machine.addPass, Id.run_bind, List.idRun_foldlM]
  rfl

end Atlas

end BoundaryAtlas
