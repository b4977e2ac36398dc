import BoundaryAtlas.Atlas.Basic

/-!
# Surveying a grid

A survey labels all boundaries of a grid up to a number of kinks. It makes one pass for each
number of kinks, from zero up, and adds each pass to the atlas when it is done. A run that is
cancelled gives no atlas.
-/

namespace BoundaryAtlas

/-- The settings of a survey. -/
structure SurveyConfig where
  /-- More kinks than the grid has room for are allowed, and not looked for. -/
  maxKinks : Nat
  /-- How many workers share a pass. The atlas does not depend on it. -/
  threads? : Option Nat
  deriving DecidableEq, Repr

/-- Whether a run is cancelled, once it has come to a session. -/
abbrev StopSignal (α σ : Type) := Session α σ → Bool

def StopSignal.never {α σ : Type} : StopSignal α σ := fun _ => false

/-- What a pass leaves: the outcomes, and whether the run was cancelled by its end. -/
structure PassReport (α : Type) where
  outcomes : List (Outcome α)
  cancelled : Bool

/-- What comes of an attempt to start so many workers. -/
abbrev WorkerPool := Nat → Except String Unit

/-- A pool that always starts. -/
def WorkerPool.willing : WorkerPool := fun _ => .ok ()

/-- Starts the workers that a survey has asked for. A labeler whose verdicts depend on the order of
the traces works alone. -/
def Pipeline.startWorkers {α σ : Type} (p : Pipeline α σ) (config : SurveyConfig)
    (pool : WorkerPool) : Except (Fault α) Unit :=
  match config.threads? with
  | none => .ok ()
  | some workers =>
    if p.labeler.parallelSafe then
      (pool workers).mapError fun reason => .param (.workers reason)
    else .ok ()

namespace Machine

variable {m : Type → Type} [Monad m] (M : Machine m) {α σ : Type} [Scalar α]

/-- One step of a pass. The signal is looked at before every boundary. -/
@[specialize] def passStep (p : Pipeline α σ) (d : Grid α) (stop : StopSignal α σ)
    (state : Array (Outcome α) × Session α σ) (b : GridBoundary) :
    m (Bool × Array (Outcome α) × Session α σ) :=
  let (outcomes, s) := state
  if stop s then return (false, outcomes, s)
  else do
    let (outcome, s) ← M.labelGrid p d b s
    return (true, outcomes.push outcome, s)

/-- Labels the boundaries with `kinks` kinks, in order, until the run is cancelled. -/
@[specialize] def pass (p : Pipeline α σ) (d : Grid α) (stop : StopSignal α σ) (kinks : Nat)
    (s : Session α σ) : m (PassReport α × Session α σ) := do
  let (outcomes, s) ← M.visit (M.passStep p d stop) (← M.search d kinks) (#[], s)
  return (⟨outcomes.toList, stop s⟩, s)

/-- Makes `count` passes from `kinks` on, and adds them to the atlas. -/
@[specialize] def passes (p : Pipeline α σ) (d : Grid α) (stop : StopSignal α σ) :
    (count kinks : Nat) → Atlas α → Session α σ → m (Except (Fault α) (Atlas α) × Session α σ)
  | 0, _, atlas, s => return (.ok atlas, s)
  | count + 1, kinks, atlas, s => do
    let (report, s) ← M.pass p d stop kinks s
    if report.cancelled then return (.error .cancelled, s)
    else passes p d stop count (kinks + 1) (← M.addPass atlas kinks report.outcomes) s

/-- Labels every boundary of the grid with up to `config.maxKinks` kinks. -/
@[specialize] def survey (p : Pipeline α σ) (d : Grid α) (config : SurveyConfig)
    (pool : WorkerPool) (stop : StopSignal α σ) (s : Session α σ) :
    m (Except (Fault α) (Atlas α) × Session α σ) :=
  match p.preflight d with
  | .error fault => return (.error fault, s)
  | .ok () =>
    match p.startWorkers config pool with
    | .error fault => return (.error fault, s)
    | .ok () =>
      let last := min config.maxKinks d.kinkLimit
      M.passes p d stop (last + 1) 0 (.empty d config.maxKinks) s

end Machine

namespace Pipeline

variable {α σ : Type} [Scalar α]

def passStep (p : Pipeline α σ) (d : Grid α) (stop : StopSignal α σ)
    (state : Array (Outcome α) × Session α σ) (b : GridBoundary) :
    Bool × Array (Outcome α) × Session α σ :=
  (Machine.ideal.passStep p d stop state b).run

def pass (p : Pipeline α σ) (d : Grid α) (stop : StopSignal α σ) (kinks : Nat)
    (s : Session α σ) : PassReport α × Session α σ :=
  (Machine.ideal.pass p d stop kinks s).run

def passes (p : Pipeline α σ) (d : Grid α) (stop : StopSignal α σ) (count kinks : Nat)
    (m : Atlas α) (s : Session α σ) : Except (Fault α) (Atlas α) × Session α σ :=
  (Machine.ideal.passes p d stop count kinks m s).run

/-- A survey whose workers always start. -/
def survey (p : Pipeline α σ) (d : Grid α) (config : SurveyConfig) (stop : StopSignal α σ)
    (s : Session α σ) : Except (Fault α) (Atlas α) × Session α σ :=
  (Machine.ideal.survey p d config .willing stop s).run

theorem passStep_def (p : Pipeline α σ) (d : Grid α) (stop : StopSignal α σ)
    (outcomes : Array (Outcome α)) (s : Session α σ) (b : GridBoundary) :
    p.passStep d stop (outcomes, s) b =
      if stop s then (false, outcomes, s)
      else (true, outcomes.push (p.labelGrid d b s).1, (p.labelGrid d b s).2) := by
  unfold passStep Machine.passStep
  dsimp only
  split <;> rfl

theorem pass_def (p : Pipeline α σ) (d : Grid α) (stop : StopSignal α σ) (kinks : Nat)
    (s : Session α σ) :
    p.pass d stop kinks s =
      let (outcomes, s) := (Search.new d kinks).visit (p.passStep d stop) (#[], s)
      (⟨outcomes.toList, stop s⟩, s) := rfl

theorem passes_succ (p : Pipeline α σ) (d : Grid α) (stop : StopSignal α σ) (count kinks : Nat)
    (m : Atlas α) (s : Session α σ) :
    p.passes d stop (count + 1) kinks m s =
      match p.pass d stop kinks s with
      | (report, s) =>
        if report.cancelled then (.error .cancelled, s)
        else p.passes d stop count (kinks + 1) (m.addPass kinks report.outcomes) s := by
  rw [passes, Machine.passes, Id.run_bind, ← pass]
  dsimp only
  split <;> rfl

omit [Scalar α] in
theorem startWorkers_willing (p : Pipeline α σ) (config : SurveyConfig) :
    p.startWorkers config .willing = .ok () := by
  unfold startWorkers
  split
  · rfl
  · split <;> rfl

theorem survey_def (p : Pipeline α σ) (d : Grid α) (config : SurveyConfig) (stop : StopSignal α σ)
    (s : Session α σ) :
    p.survey d config stop s =
      match p.preflight d with
      | .error fault => (.error fault, s)
      | .ok () =>
        let last := min config.maxKinks d.kinkLimit
        p.passes d stop (last + 1) 0 (.empty d config.maxKinks) s := by
  unfold survey Machine.survey
  rw [startWorkers_willing]
  cases p.preflight d <;> rfl

end Pipeline

end BoundaryAtlas
