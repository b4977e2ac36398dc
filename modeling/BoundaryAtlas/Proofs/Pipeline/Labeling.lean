import BoundaryAtlas.Proofs.Exact
import BoundaryAtlas.Atlas.Outcome

/-!
# What labeling computes

Of a session, only the labeler's state has a say in a label, and a pure labeler ignores even that.
-/

namespace BoundaryAtlas

variable {α σ : Type}

/-- The verdict on a trace does not depend on what the labeler saw before. -/
def Labeler.IsPure (l : Labeler α σ) : Prop :=
  ∀ s t trace, (l.classify s trace).1 = (l.classify t trace).1

theorem Labeler.ofFn_isPure (name : String) (f : Trace α → Bool) : (ofFn name f).IsPure :=
  fun _ _ _ => rfl

namespace Pipeline

variable [Scalar α]

/-- The trace for a grid boundary and its verdict, or the fault that rules it out. -/
def verdict (p : Pipeline α σ) (d : Grid α) (b : GridBoundary) (s : Session α σ) :
    Except (Fault α) (Trace α × Bool) :=
  b.toBoundary d >>= fun boundary => (p.label boundary s).1

theorem label_fst (p : Pipeline α σ) (b : Boundary α) (s : Session α σ) :
    (p.label b s).1 = (p.synth.synthesize (p.target b) p.horizon).map fun trace =>
      (trace, (p.labeler.classify s.labeler trace).1) := by
  simp only [label_def]
  cases p.synth.synthesize (p.target b) p.horizon <;> rfl

theorem labelGrid_fst (p : Pipeline α σ) (d : Grid α) (b : GridBoundary) (s : Session α σ) :
    (p.labelGrid d b s).1 =
      match p.verdict d b s with
      | .error fault => .failed b fault
      | .ok (_, label) => .labeled ⟨b, b.kinks, label⟩ := by
  rw [labelGrid_def]
  unfold verdict
  cases b.toBoundary d with
  | error fault => rfl
  | ok boundary =>
    have hfst : (p.label boundary ⟨s.labeler, s.canvas, s.attempts + 1⟩).1 =
        (p.label boundary s).1 := by rw [label_fst, label_fst]
    simp only [bind, Except.bind, ← hfst]
    rcases p.label boundary ⟨s.labeler, s.canvas, s.attempts + 1⟩ with ⟨_ | _, s'⟩ <;> rfl

theorem boundary_labelGrid (p : Pipeline α σ) (d : Grid α) (b : GridBoundary) (s : Session α σ) :
    (p.labelGrid d b s).1.boundary = b := by
  rw [labelGrid_fst]
  split <;> rfl

theorem record?_labelGrid (p : Pipeline α σ) (d : Grid α) (b : GridBoundary) (s : Session α σ)
    (r : Record) (h : (p.labelGrid d b s).1.record? = some r) : r = ⟨b, b.kinks, r.label⟩ := by
  rw [labelGrid_fst] at h
  split at h
  · simp [Outcome.record?] at h
  · simp only [Outcome.record?, Option.some.injEq] at h
    rw [← h]

theorem verdict_of_isPure (p : Pipeline α σ) (hp : p.labeler.IsPure) (d : Grid α)
    (b : GridBoundary) (s t : Session α σ) : p.verdict d b s = p.verdict d b t := by
  simp only [verdict, label_fst, hp s.labeler t.labeler]

theorem labelGrid_of_isPure (p : Pipeline α σ) (hp : p.labeler.IsPure) (d : Grid α)
    (b : GridBoundary) (s t : Session α σ) :
    (p.labelGrid d b s).1 = (p.labelGrid d b t).1 := by
  rw [labelGrid_fst, labelGrid_fst, p.verdict_of_isPure hp d b s t]

/-- A pipeline with exact numbers that asks whether a trace stays in the lower half of its box. -/
def lowerHalf (d : Grid ℚ) : Pipeline ℚ Unit :=
  onGrid (.chain .default .default)
    (.ofFn "lower half" fun trace => trace.all fun q => decide (q.y ≤ 1 / 2)) d

theorem lowerHalf_isPure (d : Grid ℚ) : (lowerHalf d).labeler.IsPure := Labeler.ofFn_isPure _ _

end Pipeline

/-- A grid over the unit of the state box. -/
def Grid.halves : Grid ℚ := ⟨1, 2, 1 / 2, 2⟩

end BoundaryAtlas
