import BoundaryAtlas.Proofs.Grid.Place
import BoundaryAtlas.Proofs.Pipeline.Labeling
import BoundaryAtlas.Proofs.Trace.Synthesis

/-!
# Why a boundary has no label

A boundary has no label if it has no place in the plane or no trace. The labeler has no say in it.
-/

namespace BoundaryAtlas

variable {α σ : Type}

/-! ## Faults of synthesis -/

theorem SolverAnswer.isLocal_of_toTrace (answer : SolverAnswer α) (times : List α) (f : Fault α)
    (h : answer.toTrace times = .error f) : f.isLocal = true := by
  cases answer <;> cases h <;> rfl

variable [Scalar α]

theorem Boundary.valueAt_eq_error (b : Boundary α) (t : α) (f : Fault α)
    (h : b.valueAt t = .error f) : f = .outsideDomain t b.first.x b.last.x := by
  rw [valueAt_def] at h
  split at h <;> cases h
  rfl

theorem Boundary.extendedValueAt_eq_error (b : Boundary α) (t : α) (f : Fault α)
    (h : b.extendedValueAt t = .error f) : f = .outsideDomain t b.first.x b.last.x := by
  rw [extendedValueAt_def] at h
  split at h
  · cases h
    rfl
  · split at h
    · exact b.valueAt_eq_error t f h
    · split at h <;> cases h

theorem TraceConstraints.isLocal_of_target (b : Boundary α) (c : TraceConfig α) (t : α)
    (f : Fault α) (h : target b c t = .error f) : f.isLocal = true := by
  rw [target_def] at h
  cases hends : c.beyondEnds with
  | reject =>
    rw [hends] at h
    rw [b.valueAt_eq_error t f h]
    rfl
  | extend =>
    rw [hends] at h
    rw [b.extendedValueAt_eq_error t f h]
    rfl

theorem TraceConstraints.isLocal_of_ofBoundary (b : Boundary α) (times : List α)
    (c : TraceConfig α) (f : Fault α) (h : ofBoundary b times c = .error f) :
    f.isLocal = true := by
  rw [ofBoundary_def] at h
  rcases eq_error_of_bind_eq_error h with h | ⟨targets, -, h⟩
  · obtain ⟨t, -, ht⟩ := exists_of_mapM_eq_error h
    exact isLocal_of_target b c t f ht
  · cases h

theorem Synthesizer.isLocal_iff_of_synthesize (s : Synthesizer α) (b : Boundary α) (horizon : α)
    (hconfig : s.config.validate = .ok ()) (f : Fault α)
    (h : s.synthesize b horizon = .error f) : f.isLocal = true ↔ horizonOk horizon = true := by
  rw [s.synthesize_eq b horizon hconfig] at h
  split at h
  · rename_i hok
    simp only [hok, iff_true]
    rcases eq_error_of_bind_eq_error h with h | ⟨constraints, -, h⟩
    · exact TraceConstraints.isLocal_of_ofBoundary _ _ _ f h
    · exact SolverAnswer.isLocal_of_toTrace _ _ f h
  · rename_i hok
    cases h
    simp [hok, Fault.isLocal]

/-! ## Faults of placement -/

theorem Boundary.ofPoints_eq_error (points : List (Point α)) (f : Fault α)
    (h : ofPoints points = .error f) : ∃ reason, f = .param reason := by
  unfold ofPoints at h
  split at h
  · cases h
    exact ⟨_, rfl⟩
  · split at h
    · cases h
      exact ⟨_, rfl⟩
    · split at h <;> cases h
      exact ⟨_, rfl⟩

theorem GridBoundary.IsCanonical.toBoundary_eq_error {d : Grid α} {n : Nat} {b : GridBoundary}
    (hb : b.IsCanonical d n) (f : Fault α) (h : b.toBoundary d = .error f) :
    ∃ reason, f = .param reason := by
  rw [toBoundary, (outlier?_eq_none_iff d b).mpr hb.nodes] at h
  exact Boundary.ofPoints_eq_error _ f h

/-! ## Faults of grid boundaries -/

/-- The fault in place of a result. -/
def faultOf {β : Type} : Except (Fault α) β → Option (Fault α)
  | .error f => some f
  | .ok _ => none

omit [Scalar α] in
theorem faultOf_eq_some_iff {β : Type} (result : Except (Fault α) β) (f : Fault α) :
    faultOf result = some f ↔ result = .error f := by
  cases result <;> simp [faultOf]

namespace Pipeline

/-- The trace for a grid boundary, or the fault that leaves it without one. -/
def traceOf (p : Pipeline α σ) (d : Grid α) (b : GridBoundary) : Except (Fault α) (Trace α) :=
  b.toBoundary d >>= fun boundary => p.synth.synthesize (p.target boundary) p.horizon

/-- The fault that leaves a grid boundary without a label, if there is one. -/
def fault? (p : Pipeline α σ) (d : Grid α) (b : GridBoundary) : Option (Fault α) :=
  faultOf (p.traceOf d b)

/-- The grid boundary has a place in the plane. -/
def Placed (d : Grid α) (b : GridBoundary) : Prop := ∃ boundary, b.toBoundary d = .ok boundary

theorem grid_of_preflight (p : Pipeline α σ) (d : Grid α) (h : p.preflight d = .ok ()) :
    d.validate = .ok () := by
  obtain ⟨_, hgrid, -⟩ := exists_of_bind_eq_ok h
  exact hgrid

theorem config_of_preflight (p : Pipeline α σ) (d : Grid α) (h : p.preflight d = .ok ()) :
    p.synth.config.validate = .ok () := by
  obtain ⟨_, -, h⟩ := exists_of_bind_eq_ok h
  obtain ⟨-, h⟩ := throw_or_eq_ok_iff.mp h
  obtain ⟨_, hconfig, -⟩ := exists_of_bind_eq_ok h
  exact hconfig

theorem verdict_eq (p : Pipeline α σ) (d : Grid α) (b : GridBoundary) (s : Session α σ) :
    p.verdict d b s = (p.traceOf d b).map fun points =>
      (points, (p.labeler.classify s.labeler points).1) := by
  unfold verdict traceOf
  cases b.toBoundary d with
  | error f => rfl
  | ok boundary => exact p.label_fst boundary s

theorem labelGrid_of_fault (p : Pipeline α σ) (d : Grid α) (b : GridBoundary) (s : Session α σ)
    (f : Fault α) (h : p.fault? d b = some f) : (p.labelGrid d b s).1 = .failed b f := by
  rw [labelGrid_fst, verdict_eq, (faultOf_eq_some_iff _ f).mp h]
  rfl

theorem labelGrid_of_no_fault (p : Pipeline α σ) (d : Grid α) (b : GridBoundary)
    (s : Session α σ) (h : p.fault? d b = none) :
    ∃ label, (p.labelGrid d b s).1 = .labeled ⟨b, b.kinks, label⟩ := by
  rw [labelGrid_fst, verdict_eq]
  unfold fault? at h
  cases htrace : p.traceOf d b with
  | error f => simp [htrace, faultOf] at h
  | ok points => exact ⟨_, rfl⟩

/-- A fault rules out its boundary only, if the boundary has a place and the traces a length. -/
theorem isLocal_fault_iff (p : Pipeline α σ) (d : Grid α) (n : Nat) (b : GridBoundary)
    (hb : b.IsCanonical d n) (hconfig : p.synth.config.validate = .ok ()) (f : Fault α)
    (h : p.fault? d b = some f) :
    f.isLocal = true ↔ Placed d b ∧ Synthesizer.horizonOk p.horizon = true := by
  rcases eq_error_of_bind_eq_error ((faultOf_eq_some_iff _ f).mp h) with h | ⟨boundary, hplace, h⟩
  · obtain ⟨reason, rfl⟩ := hb.toBoundary_eq_error f h
    simp [Placed, h, Fault.isLocal]
  · rw [p.synth.isLocal_iff_of_synthesize _ _ hconfig f h, and_iff_right ⟨boundary, hplace⟩]

theorem isLocal_fault_of_pos {α : Type} [ExactScalar α] (p : Pipeline α σ) (d : Grid α) (n : Nat)
    (b : GridBoundary) (hb : b.IsCanonical d n) (hrun : p.preflight d = .ok ())
    (hpos : 0 < p.horizon) (f : Fault α) (h : p.fault? d b = some f) : f.isLocal = true := by
  have hgrid := p.grid_of_preflight d hrun
  obtain ⟨boundary, hplace, -⟩ := hb.isValid.toBoundary_eq (d.pos_of_validate hgrid).1
  rw [p.isLocal_fault_iff d n b hb (p.config_of_preflight d hrun) f h]
  exact ⟨⟨boundary, hplace⟩, by simpa [Synthesizer.horizonOk] using hpos⟩

end Pipeline

end BoundaryAtlas
