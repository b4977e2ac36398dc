import BoundaryAtlas.Proofs.Boundary.Range
import BoundaryAtlas.Proofs.Trace.Synthesis

/-!
# Values at the sample times

The sample times lie between zero and the horizon. A boundary over just these times has a value at
each of them, so that whether it has a trace is up to the solver.
-/

namespace BoundaryAtlas

variable {α : Type} [ExactScalar α]

theorem TraceConfig.mem_of_mem_times (c : TraceConfig α) (hpoints : 2 ≤ c.numPoints) (horizon t : α)
    (hhorizon : 0 ≤ horizon) (ht : t ∈ c.times horizon) : t ∈ (⟨0, horizon⟩ : Interval α) := by
  obtain ⟨i, hi, rfl⟩ := List.getElem_of_mem ht
  rw [c.getElem_times hpoints horizon i hi]
  rw [c.length_times] at hi
  have hlast : (0 : α) < c.numPoints - 1 := by
    rw [sub_pos, Nat.one_lt_cast]
    omega
  have hle : (i : α) ≤ c.numPoints - 1 := by
    rw [le_sub_iff_add_le, ← Nat.cast_succ, Nat.cast_le]
    omega
  constructor
  · exact div_nonneg (mul_nonneg hhorizon (Nat.cast_nonneg i)) hlast.le
  · rw [div_le_iff₀ hlast]
    exact mul_le_mul_of_nonneg_left hle hhorizon

theorem TraceConstraints.target_of_mem (b : Boundary α) (c : TraceConfig α) (t : α)
    (ht : t ∈ b.domain) : target b c t = .ok (b.valueInside t) := by
  rw [target_def]
  cases c.beyondEnds with
  | reject => exact b.valueAt_of_mem t ht
  | extend => exact b.extendedValueAt_of_mem t ht

theorem TraceConstraints.ofBoundary_of_domain (b : Boundary α) (c : TraceConfig α)
    (hpoints : 2 ≤ c.numPoints) (horizon : α) (hhorizon : 0 ≤ horizon)
    (hdomain : b.domain = ⟨0, horizon⟩) :
    ofBoundary b (c.times horizon) c = .ok (around c ((c.times horizon).map b.valueInside)) := by
  apply ofBoundary_of_forall₂
  rw [List.forall₂_map_right_iff, List.forall₂_same]
  intro t ht
  apply target_of_mem
  rw [hdomain]
  exact c.mem_of_mem_times hpoints horizon t hhorizon ht

theorem Synthesizer.synthesize_of_domain (s : Synthesizer α) (b : Boundary α) (horizon : α)
    (hconfig : s.config.validate = .ok ()) (hhorizon : 0 < horizon)
    (hdomain : b.domain = ⟨0, horizon⟩) :
    s.synthesize b horizon =
      (s.solve (.around s.config ((s.config.times horizon).map b.valueInside))).toTrace
        (s.config.times horizon) := by
  obtain ⟨-, hpoints, -⟩ := s.config.validate_eq_ok_iff.mp hconfig
  have hok : horizonOk horizon = true := by simpa [horizonOk] using hhorizon
  rw [s.synthesize_eq b horizon hconfig, if_pos hok,
    TraceConstraints.ofBoundary_of_domain b s.config hpoints horizon hhorizon.le hdomain]
  rfl

end BoundaryAtlas
