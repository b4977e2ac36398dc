import BoundaryAtlas.Boundary.Inversion
import BoundaryAtlas.Grid.Boundary
import BoundaryAtlas.Labeler.Basic

/-!
# From a boundary to a label

A pipeline inverts a boundary if asked to, synthesizes a trace, and gives it to a labeler.
What changes along the way is kept in a session: the labeler's state, the drawings, and the
number of boundaries so far.
-/

namespace BoundaryAtlas

/-! ## Sessions -/

/-- What a drawing shows. -/
inductive DrawingStyle where
  | boundary
  | trace
  deriving DecidableEq, Repr

/-- Points that were drawn. -/
structure Drawing (α : Type) where
  style : DrawingStyle
  points : List (Point α)
  deriving DecidableEq, Repr

/-- What a run leaves behind as it goes. -/
structure Session (α σ : Type) where
  labeler : σ
  /-- The drawings so far, if they are kept. -/
  canvas : Option (Array (Drawing α))
  /-- The grid boundaries that were labeled or found to have no label. -/
  attempts : Nat

namespace Session

variable {α σ : Type}

/-- A session before its first boundary. -/
def new (labeler : σ) (draws : Bool) : Session α σ :=
  ⟨labeler, if draws then some #[] else none, 0⟩

def draw (s : Session α σ) (style : DrawingStyle) (points : List (Point α)) : Session α σ :=
  let ⟨labeler, canvas, attempts⟩ := s
  ⟨labeler, canvas.map (·.push ⟨style, points⟩), attempts⟩

/-- The drawings in order. -/
def drawings (s : Session α σ) : List (Drawing α) :=
  match s.canvas with
  | some drawings => drawings.toList
  | none => []

end Session

/-! ## Pipelines -/

/-- Everything that is needed to label a boundary. -/
structure Pipeline (α σ : Type) where
  synth : Synthesizer α
  labeler : Labeler α σ
  box : Box α
  /-- Boundaries are turned by half a turn in the box. -/
  inverts : Bool

namespace Pipeline

variable {α σ : Type} [Scalar α]

/-- The box of a grid: from zero to its last column, and the state box. -/
def gridBox (config : TraceConfig α) (d : Grid α) : Box α :=
  ⟨⟨Scalar.ofNat 0, d.width⟩, ⟨config.stateMin, config.stateMax⟩⟩

/-- A pipeline for the boundaries of a grid. -/
def onGrid (synth : Synthesizer α) (labeler : Labeler α σ) (d : Grid α) : Pipeline α σ :=
  ⟨synth, labeler, gridBox synth.config d, false⟩

/-- Traces run from zero to the right side of the box. -/
def horizon (p : Pipeline α σ) : α := p.box.x.hi

/-- Checks the settings, and that the labeler has verdicts on traces of this length. -/
def validate (p : Pipeline α σ) : Except (Fault α) Unit := do
  p.synth.config.validate
  p.labeler.checkDomain (Scalar.ofNat 0) p.horizon

/-- The boundary that the trace has to track. -/
def target (p : Pipeline α σ) (b : Boundary α) : Boundary α :=
  if p.inverts then b.invert p.box else b

end Pipeline

namespace Machine

variable {m : Type → Type} [Monad m] (M : Machine m) {α σ : Type} [Scalar α]

/-- The boundary that the trace has to track. -/
@[specialize] def tracked (p : Pipeline α σ) (b : Boundary α) : m (Boundary α) :=
  if p.inverts then M.invert b p.box else return b

/-- The trace for a boundary and its verdict. The labeler is called only if there is a trace. -/
@[specialize] def label (p : Pipeline α σ) (b : Boundary α) (s : Session α σ) :
    m (Except (Fault α) (Trace α × Bool) × Session α σ) := do
  let target ← M.tracked p b
  let s := s.draw .boundary target.points
  match ← (M.synthesize p.synth target p.horizon).run with
  | .error fault => return (.error fault, s)
  | .ok trace =>
    let ⟨labeler, canvas, attempts⟩ := s.draw .trace trace
    let (verdict, labeler) := p.labeler.classify labeler trace
    return (.ok (trace, verdict), ⟨labeler, canvas, attempts⟩)

end Machine

namespace Pipeline

variable {α σ : Type} [Scalar α]

def label (p : Pipeline α σ) (b : Boundary α) (s : Session α σ) :
    Except (Fault α) (Trace α × Bool) × Session α σ :=
  (Machine.ideal.label p b s).run

theorem tracked_ideal (p : Pipeline α σ) (b : Boundary α) :
    (Machine.ideal.tracked p b).run = p.target b := by
  unfold Machine.tracked target
  split <;> rfl

theorem label_def (p : Pipeline α σ) (b : Boundary α) (s : Session α σ) :
    p.label b s =
      let target := p.target b
      let s := s.draw .boundary target.points
      match p.synth.synthesize target p.horizon with
      | .error fault => (.error fault, s)
      | .ok trace =>
        let drawn := s.draw .trace trace
        let (verdict, labeler) := p.labeler.classify drawn.labeler trace
        (.ok (trace, verdict), ⟨labeler, drawn.canvas, drawn.attempts⟩) := by
  rw [label, Machine.label, Id.run_bind, tracked_ideal, Id.run_bind]
  unfold Synthesizer.synthesize
  dsimp only
  cases (Machine.ideal.synthesize p.synth (p.target b) p.horizon).run.run <;> rfl

end Pipeline

end BoundaryAtlas
