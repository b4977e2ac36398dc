import Mathlib.Data.List.Forall2
import BoundaryAtlas.Proofs.Exact
import BoundaryAtlas.Trace.Synthesis

/-!
# What synthesis does with a boundary

The settings and the horizon are checked, the values of the boundary are collected, and the solver
has the last word.
-/

namespace BoundaryAtlas

variable {α : Type}

/-! ## Steps that may fail -/

section Steps

variable {ε β γ : Type}

theorem exists_of_bind_eq_ok {x : Except ε β} {f : β → Except ε γ} {c : γ}
    (h : x >>= f = .ok c) : ∃ b, x = .ok b ∧ f b = .ok c := by
  cases x with
  | error e => cases h
  | ok b => exact ⟨b, rfl, h⟩

theorem exists_of_isOk {x : Except ε β} (h : x.isOk = true) : ∃ b, x = .ok b := by
  cases x with
  | error e => cases h
  | ok b => exact ⟨b, rfl⟩

theorem eq_error_of_bind_eq_error {x : Except ε β} {f : β → Except ε γ} {e : ε}
    (h : x >>= f = .error e) : x = .error e ∨ ∃ b, x = .ok b ∧ f b = .error e := by
  cases x with
  | error e' =>
    left
    cases h
    rfl
  | ok b => exact .inr ⟨b, rfl, h⟩

theorem forall₂_of_mapM_eq_ok {f : β → Except ε γ} {l : List β} {l' : List γ}
    (h : l.mapM f = .ok l') : List.Forall₂ (fun x y => f x = .ok y) l l' := by
  induction l generalizing l' with
  | nil =>
    cases h
    exact .nil
  | cons x l ih =>
    rw [List.mapM_cons] at h
    obtain ⟨y, hy, h⟩ := exists_of_bind_eq_ok h
    obtain ⟨ys, hys, h⟩ := exists_of_bind_eq_ok h
    cases h
    exact .cons hy (ih hys)

theorem mapM_eq_ok_iff {f : β → Except ε γ} {l : List β} {l' : List γ} :
    l.mapM f = .ok l' ↔ List.Forall₂ (fun x y => f x = .ok y) l l' := by
  refine ⟨forall₂_of_mapM_eq_ok, fun h => ?_⟩
  induction h with
  | nil => rfl
  | cons hx _ ih =>
    rw [List.mapM_cons, hx, ih]
    rfl

theorem exists_of_mapM_eq_error {f : β → Except ε γ} {l : List β} {e : ε}
    (h : l.mapM f = .error e) : ∃ x ∈ l, f x = .error e := by
  induction l with
  | nil => cases h
  | cons x l ih =>
    rw [List.mapM_cons] at h
    rcases eq_error_of_bind_eq_error h with hx | ⟨y, -, h⟩
    · exact ⟨x, List.mem_cons_self, hx⟩
    · rcases eq_error_of_bind_eq_error h with hl | ⟨ys, -, h⟩
      · obtain ⟨z, hz, hfault⟩ := ih hl
        exact ⟨z, List.mem_cons_of_mem x hz, hfault⟩
      · cases h

theorem throw_or_eq_ok_iff {p : Prop} [Decidable p] {e : ε} {rest : Except ε γ} {c : γ} :
    (if p then throw e >>= fun _ : PUnit => rest else rest) = .ok c ↔ ¬ p ∧ rest = .ok c := by
  by_cases hp : p
  · simp [hp, throw, throwThe, MonadExceptOf.throw, bind, Except.bind]
  · simp [hp]

theorem throw_or_pure_eq_ok_iff {p : Prop} [Decidable p] {e : ε} :
    (if p then throw e else pure () : Except ε PUnit) = .ok () ↔ ¬ p := by
  by_cases hp : p <;> simp [hp, throw, throwThe, MonadExceptOf.throw, pure, Except.pure]

end Steps

/-! ## Settings -/

theorem TraceConfig.validate_eq_ok_iff [ExactScalar α] (c : TraceConfig α) :
    c.validate = .ok () ↔ 0 < c.epsilon ∧ 2 ≤ c.numPoints ∧
      (∀ rate ∈ c.rateBound?, 0 ≤ rate) ∧ c.stateMin ≤ c.stateMax := by
  unfold validate stateBoxOk
  obtain ⟨epsilon, numPoints, rateBound?, stateMin, stateMax, beyondEnds⟩ := c
  cases rateBound? <;> simp [throw_or_eq_ok_iff, throw_or_pure_eq_ok_iff, Nat.succ_le_iff]

theorem TraceConfig.length_times [Scalar α] (c : TraceConfig α) (horizon : α) :
    (c.times horizon).length = c.numPoints := by
  simp [times]

/-- The last time is the horizon by definition, and also by the formula for the others. -/
theorem TraceConfig.getElem_times [ExactScalar α] (c : TraceConfig α) (hpoints : 2 ≤ c.numPoints)
    (horizon : α) (i : Nat) (h : i < (c.times horizon).length) :
    (c.times horizon)[i] = horizon * i / (c.numPoints - 1) := by
  have hcast : ((c.numPoints - 1 : Nat) : α) = c.numPoints - 1 := by
    rw [Nat.cast_sub (by omega), Nat.cast_one]
  simp only [times, List.getElem_map, List.getElem_range, timeAt, ExactScalar.ofNat_eq, hcast]
  split
  · rename_i hlast
    have hne : (c.numPoints : α) - 1 ≠ 0 := by
      rw [← hcast, Nat.cast_ne_zero]
      omega
    have hi : (i : α) = c.numPoints - 1 := by
      rw [← hlast, Nat.cast_succ, add_sub_cancel_right]
    rw [hi, mul_div_assoc, div_self hne, mul_one]
  · rfl

/-! ## Traces -/

theorem SolverAnswer.toTrace_eq_ok (answer : SolverAnswer α) (times : List α) (trace : Trace α)
    (h : answer.toTrace times = .ok trace) :
    ∃ sol, answer = .feasible sol ∧ trace = List.zipWith Point.mk times sol.states := by
  cases answer with
  | feasible sol =>
    cases h
    exact ⟨sol, rfl, rfl⟩
  | infeasible sample => cases h
  | timedOut elapsed => cases h

variable [Scalar α]

/-- The constraints for tracking a boundary that has these values at the samples. -/
def TraceConstraints.around (c : TraceConfig α) (targets : List α) : TraceConstraints α :=
  ⟨targets.map (tube c), c.rateBound?, c.epsilon, c.stateMin, c.stateMax⟩

theorem TraceConstraints.ofBoundary_eq_ok (b : Boundary α) (times : List α) (c : TraceConfig α)
    (s : TraceConstraints α) (h : ofBoundary b times c = .ok s) :
    ∃ targets, List.Forall₂ (fun t v => target b c t = .ok v) times targets ∧
      s = around c targets := by
  rw [ofBoundary_def] at h
  obtain ⟨targets, htargets, h⟩ := exists_of_bind_eq_ok h
  cases h
  exact ⟨targets, forall₂_of_mapM_eq_ok htargets, rfl⟩

theorem TraceConstraints.ofBoundary_of_forall₂ (b : Boundary α) (times : List α) (c : TraceConfig α)
    (targets : List α) (h : List.Forall₂ (fun t v => target b c t = .ok v) times targets) :
    ofBoundary b times c = .ok (around c targets) := by
  rw [ofBoundary_def, mapM_eq_ok_iff.mpr h]
  rfl

namespace Synthesizer

/-- The horizon is a length for a trace. -/
def horizonOk (horizon : α) : Bool := Scalar.isFinite horizon && decide (Scalar.ofNat 0 < horizon)

theorem synthesize_eq (s : Synthesizer α) (b : Boundary α) (horizon : α)
    (hconfig : s.config.validate = .ok ()) :
    s.synthesize b horizon =
      if horizonOk horizon then
        TraceConstraints.ofBoundary b (s.config.times horizon) s.config >>= fun constraints =>
          (s.solve constraints).toTrace (s.config.times horizon)
      else .error (.param (.horizon horizon)) := by
  rw [synthesize_def, hconfig]
  unfold horizonOk
  cases Scalar.isFinite horizon && decide (Scalar.ofNat 0 < horizon) <;> rfl

theorem synthesize_eq_ok (s : Synthesizer α) (b : Boundary α) (horizon : α) (trace : Trace α)
    (h : s.synthesize b horizon = .ok trace) :
    s.config.validate = .ok () ∧ ∃ constraints sol,
      TraceConstraints.ofBoundary b (s.config.times horizon) s.config = .ok constraints ∧
      s.solve constraints = .feasible sol ∧
      trace = List.zipWith Point.mk (s.config.times horizon) sol.states := by
  have hsteps := h
  rw [synthesize_def] at hsteps
  obtain ⟨⟨⟩, hconfig, -⟩ := exists_of_bind_eq_ok hsteps
  rw [synthesize_eq s b horizon hconfig] at h
  split at h
  · obtain ⟨constraints, hconstraints, h⟩ := exists_of_bind_eq_ok h
    obtain ⟨sol, hsol, htrace⟩ := SolverAnswer.toTrace_eq_ok _ _ trace h
    exact ⟨hconfig, constraints, sol, hconstraints, hsol, htrace⟩
  · cases h

theorem synthesize_eq_ok_iff (s : Synthesizer α) (b : Boundary α) (horizon : α)
    (points : Trace α) :
    s.synthesize b horizon = .ok points ↔
      s.config.validate = .ok () ∧ horizonOk horizon = true ∧
      ∃ targets, List.Forall₂ (fun t v => TraceConstraints.target b s.config t = .ok v)
          (s.config.times horizon) targets ∧
        ∃ sol, s.solve (.around s.config targets) = .feasible sol ∧
          points = List.zipWith Point.mk (s.config.times horizon) sol.states := by
  constructor
  · intro h
    obtain ⟨hconfig, constraints, sol, hconstraints, hsol, hpoints⟩ :=
      s.synthesize_eq_ok b horizon points h
    rw [s.synthesize_eq b horizon hconfig] at h
    have hok : horizonOk horizon = true := by
      by_contra hok
      simp [hok] at h
    obtain ⟨targets, htargets, rfl⟩ :=
      TraceConstraints.ofBoundary_eq_ok b _ s.config _ hconstraints
    exact ⟨hconfig, hok, targets, htargets, sol, hsol, hpoints⟩
  · rintro ⟨hconfig, hok, targets, htargets, sol, hsol, rfl⟩
    rw [s.synthesize_eq b horizon hconfig, if_pos hok,
      TraceConstraints.ofBoundary_of_forall₂ b _ s.config targets htargets]
    change (s.solve (.around s.config targets)).toTrace _ = _
    rw [hsol]
    rfl

end Synthesizer

end BoundaryAtlas
