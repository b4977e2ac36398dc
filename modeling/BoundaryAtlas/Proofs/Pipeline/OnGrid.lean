import BoundaryAtlas.Proofs.Pipeline.Faults
import BoundaryAtlas.Proofs.Trace.Targets

/-!
# Pipelines over the width of a grid

If traces run over the width of the grid, then a boundary of the grid has a value at each sample
time, before and after half a turn. So the solver alone can leave it without a trace.
-/

namespace BoundaryAtlas

variable {α σ : Type}

/-! ## Faults of the solver -/

/-- The fault is the solver's answer. -/
def Fault.IsSolver (f : Fault α) : Prop :=
  (∃ sample, f = .unsatisfiable sample) ∨ ∃ elapsed, f = .solverTimeout elapsed

theorem SolverAnswer.isSolver_of_toTrace (answer : SolverAnswer α) (times : List α) (f : Fault α)
    (h : answer.toTrace times = .error f) : f.IsSolver := by
  cases answer with
  | feasible sol => cases h
  | infeasible sample =>
    cases h
    exact .inl ⟨sample, rfl⟩
  | timedOut elapsed =>
    cases h
    exact .inr ⟨elapsed, rfl⟩

variable [ExactScalar α]

/-! ## Boundaries of the grid -/

namespace GridBoundary

theorem place_mem {d : Grid α} (hy : 0 < d.ySpacing) {p : GridPoint} (hp : p.row ≤ d.numY) :
    (place d p).y ∈ (⟨0, d.height⟩ : Interval α) := by
  rw [place_y]
  unfold Grid.height
  rw [ExactScalar.ofNat_eq]
  constructor
  · exact mul_nonneg (Nat.cast_nonneg _) hy.le
  · exact mul_le_mul_of_nonneg_right (Nat.cast_le.mpr hp) hy.le

theorem IsValid.toBoundary_inside {d : Grid α} {b : GridBoundary} (h : b.IsValid d)
    (hx : 0 < d.xSpacing) (hy : 0 < d.ySpacing) :
    ∃ c : Boundary α, b.toBoundary d = .ok c ∧ c.domain = ⟨0, d.width⟩ ∧
      ∀ p ∈ c.points, p.y ∈ (⟨0, d.height⟩ : Interval α) := by
  obtain ⟨c, hc, hpoints, -⟩ := h.toBoundary_eq hx
  obtain ⟨p, hp, hp0⟩ := h.starts
  obtain ⟨q, hq, hqx⟩ := h.ends
  have hfirst : c.first = place d p := by
    apply c.first_eq_head?
    rw [hpoints, List.head?_map]
    exact Option.mem_map_of_mem _ hp
  have hlast : c.last = place d q := by
    apply c.last_eq_getLast?
    rw [hpoints, List.getLast?_map]
    exact Option.mem_map_of_mem _ hq
  refine ⟨c, hc, ?_, ?_⟩
  · unfold Boundary.domain Grid.width
    rw [hfirst, hlast, place_x, place_x, hp0, hqx, ExactScalar.ofNat_eq, Nat.cast_zero, zero_mul]
  · rw [hpoints]
    intro o ho
    obtain ⟨r, hr, rfl⟩ := List.mem_map.mp ho
    exact place_mem hy (h.nodes r hr).2

end GridBoundary

theorem Grid.width_pos (d : Grid α) (h : d.validate = .ok ()) : 0 < d.width := by
  obtain ⟨hx, -, hnumX, -⟩ := d.pos_of_validate h
  unfold Grid.width
  rw [ExactScalar.ofNat_eq]
  exact mul_pos (Nat.cast_pos.mpr hnumX) hx

/-! ## Targets -/

namespace Pipeline

theorem domain_target (p : Pipeline α σ) (b : Boundary α) (h : b.domain = p.box.x) :
    (p.target b).domain = p.box.x := by
  unfold target
  split
  · rw [b.domain_invert, h, add_sub_cancel_right, add_sub_cancel_left]
  · exact h

theorem y_mem_target (p : Pipeline α σ) (b : Boundary α) (h : ∀ q ∈ b.points, q.y ∈ p.box.y) :
    ∀ q ∈ (p.target b).points, q.y ∈ p.box.y := by
  unfold target
  split
  · exact b.y_mem_invert p.box h
  · exact h

theorem value_mem (p : Pipeline α σ) (d : Grid α) (hbox : p.box.x = ⟨0, d.width⟩)
    (hgrid : d.validate = .ok ()) (hpoints : 2 ≤ p.synth.config.numPoints) (b : Boundary α)
    (hdomain : b.domain = p.box.x) (hinside : ∀ q ∈ b.points, q.y ∈ p.box.y) (t : α)
    (ht : t ∈ p.synth.config.times d.width) : (p.target b).valueInside t ∈ p.box.y := by
  have hin := p.synth.config.mem_of_mem_times hpoints d.width t (d.width_pos hgrid).le ht
  rw [← hbox, ← p.domain_target b hdomain] at hin
  exact (p.target b).valueInside_mem _ (p.y_mem_target b hinside) t hin.1

theorem traceOf_eq (p : Pipeline α σ) (d : Grid α) (hbox : p.box.x = ⟨0, d.width⟩)
    (hconfig : p.synth.config.validate = .ok ()) (hgrid : d.validate = .ok ()) {n : Nat}
    {b : GridBoundary} (hb : b.IsCanonical d n) :
    ∃ c : Boundary α, c.domain = p.box.x ∧
      (∀ q ∈ c.points, q.y ∈ (⟨0, d.height⟩ : Interval α)) ∧
      p.traceOf d b =
        (p.synth.solve (.around p.synth.config
          ((p.synth.config.times d.width).map (p.target c).valueInside))).toTrace
            (p.synth.config.times d.width) := by
  obtain ⟨hx, hy, -⟩ := d.pos_of_validate hgrid
  obtain ⟨c, hc, hdomain, hinside⟩ := hb.isValid.toBoundary_inside hx hy
  rw [← hbox] at hdomain
  refine ⟨c, hdomain, hinside, ?_⟩
  have hhorizon : p.horizon = d.width := by
    unfold horizon
    rw [hbox]
  have htarget : (p.target c).domain = ⟨0, d.width⟩ := by rw [p.domain_target c hdomain, hbox]
  rw [traceOf, hc, hhorizon]
  exact p.synth.synthesize_of_domain (p.target c) d.width hconfig (d.width_pos hgrid) htarget

theorem isSolver_of_fault (p : Pipeline α σ) (d : Grid α) (hbox : p.box.x = ⟨0, d.width⟩)
    (hconfig : p.synth.config.validate = .ok ()) (hgrid : d.validate = .ok ()) {n : Nat}
    {b : GridBoundary} (hb : b.IsCanonical d n) (f : Fault α) (h : p.fault? d b = some f) :
    f.IsSolver := by
  obtain ⟨c, -, -, htrace⟩ := p.traceOf_eq d hbox hconfig hgrid hb
  unfold fault? at h
  rw [faultOf_eq_some_iff, htrace] at h
  exact SolverAnswer.isSolver_of_toTrace _ _ f h

end Pipeline

end BoundaryAtlas
