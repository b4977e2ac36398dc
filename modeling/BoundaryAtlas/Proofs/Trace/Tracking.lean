import BoundaryAtlas.Proofs.Trace.Solution
import BoundaryAtlas.Proofs.Trace.Synthesis

/-!
# Traces stay near their boundary

A trace keeps the step bound and the upper end of the tube exactly. Below, it may leave the tube by
one slack for each sample from there on.
-/

namespace BoundaryAtlas

variable {α : Type} [ExactScalar α]

/-! ## The check of a trajectory -/

theorem TraceConstraints.isMetBy_of_forall (s : TraceConstraints α) (sol : Trajectory α) (tol : α)
    (hpos : 0 < s.samples.length) (hlength : sol.states.length = s.samples.length)
    (hconnects : sol.Connects)
    (hstates : ∀ i (hs : i < s.samples.length) (hx : i < sol.states.length),
      s.allowsState tol sol.states[i] s.samples[i].target = true)
    (hsteps : ∀ i (h : i + 1 < sol.states.length),
      s.allowsStep tol sol.states[i] sol.states[i + 1] (sol.states[i + 1] - sol.states[i]) = true) :
    s.isMetBy sol tol = true := by
  obtain ⟨hcount, hdifferences⟩ := hconnects
  simp only [isMetBy, Bool.and_eq_true, decide_eq_true_eq, List.all_eq_true]
  refine ⟨⟨⟨hlength, by omega⟩, ?_⟩, ?_⟩
  · intro p hp
    obtain ⟨i, hi, rfl⟩ := List.mem_iff_getElem.mp hp
    rw [List.length_zip, lt_min_iff] at hi
    rw [List.getElem_zip]
    exact hstates i hi.2 hi.1
  · intro p hp
    obtain ⟨i, hi, rfl⟩ := List.mem_iff_getElem.mp hp
    rw [List.length_zip, lt_min_iff, length_neighbours] at hi
    have hnext : i + 1 < sol.states.length := by omega
    rw [List.getElem_zip, getElem_neighbours sol.states i _ hnext, hdifferences i hi.1 hnext]
    exact hsteps i hnext

/-! ## Tubes -/

section Tubes

variable (config : TraceConfig α) (targets : List α)

theorem TraceConstraints.allowsState_of_tube (tol v x loss : α) (hloss : 0 ≤ loss)
    (htol : loss ≤ tol) (hlo : max (v - config.epsilon) config.stateMin - loss ≤ x)
    (hhi : x ≤ min (v + config.epsilon) config.stateMax) :
    (around config targets).allowsState tol x v = true := by
  obtain ⟨htube, hbox⟩ := le_min_iff.mp hhi
  obtain ⟨htube', hbox'⟩ := max_le_iff.mp (sub_le_iff_le_add.mp hlo)
  unfold allowsState
  simp only [Bool.and_eq_true, decide_eq_true_eq, ExactScalar.abs_eq, abs_le]
  unfold around
  refine ⟨⟨?_, ?_⟩, ?_, ?_⟩ <;> linarith

theorem TraceConstraints.allowsStep_of_stepsTo (s : TraceConstraints α) (tol x y : α)
    (htol : 0 ≤ tol) (h : Chain.StepsTo s.rate? x y) : s.allowsStep tol x y (y - x) = true := by
  unfold allowsStep
  simp only [add_sub_cancel, sub_self, ExactScalar.abs_eq, abs_zero, htol, decide_true,
    Bool.true_and]
  cases hrate : s.rate? with
  | none => rfl
  | some rate => exact decide_eq_true ((h rate hrate).trans (le_add_of_nonneg_right htol))

/-- The states are in their tubes, up to one slack below for each sample from theirs on. -/
def InTubes (slack : α) (states : List α) : Prop :=
  ∀ i (hv : i < targets.length) (hx : i < states.length),
    max (targets[i] - config.epsilon) config.stateMin - (targets.length - i) * slack ≤ states[i] ∧
    states[i] ≤ min (targets[i] + config.epsilon) config.stateMax

theorem inTubes_of_solve (solver : SolverConfig α) (hslack : 0 ≤ solver.slack)
    (hrate : ∀ rate ∈ config.rateBound?, 0 ≤ rate) (sol : Trajectory α)
    (h : Chain.solve (.around config targets) solver = .feasible sol) :
    sol.states.length = targets.length ∧
    sol.states.IsChain (Chain.StepsTo config.rateBound?) ∧
    InTubes config targets solver.slack sol.states := by
  obtain ⟨hlength, hsteps, hbounds⟩ := Chain.solve_bounds _ solver hslack hrate sol h
  simp only [TraceConstraints.around, List.length_map, List.getElem_map, TraceConstraints.tube,
    ExactScalar.larger_eq, ExactScalar.smaller_eq] at hlength hbounds
  refine ⟨hlength, hsteps, ?_⟩
  intro i hv hx
  rw [← Nat.cast_sub (by omega)]
  exact hbounds i hv hx

theorem isMetBy_of_inTubes (slack : α) (hslack : 0 ≤ slack) (sol : Trajectory α)
    (hpos : 0 < targets.length) (hlength : sol.states.length = targets.length)
    (hconnects : sol.Connects) (hsteps : sol.states.IsChain (Chain.StepsTo config.rateBound?))
    (h : InTubes config targets slack sol.states) (tol : α) (htol : targets.length * slack ≤ tol) :
    (TraceConstraints.around config targets).isMetBy sol tol = true := by
  have hsamples : (TraceConstraints.around config targets).samples.length = targets.length :=
    List.length_map _
  apply TraceConstraints.isMetBy_of_forall
  · rwa [hsamples]
  · rw [hlength, hsamples]
  · exact hconnects
  · intro i hi hx
    have hv : i < targets.length := hsamples ▸ hi
    have hleft : (0 : α) ≤ targets.length - i := by
      rw [sub_nonneg, Nat.cast_le]
      omega
    have hloss : ((targets.length : α) - i) * slack ≤ targets.length * slack :=
      mul_le_mul_of_nonneg_right (sub_le_self _ (Nat.cast_nonneg i)) hslack
    simp only [TraceConstraints.around, List.getElem_map]
    exact TraceConstraints.allowsState_of_tube config targets _ _ _ _ (mul_nonneg hleft hslack)
      (hloss.trans htol) (h i hv hx).1 (h i hv hx).2
  · intro i hi
    exact TraceConstraints.allowsStep_of_stepsTo _ _ _ _
      ((mul_nonneg (Nat.cast_nonneg _) hslack).trans htol) (hsteps.getElem i hi)

end Tubes

/-! ## Traces -/

/-- **Tracking.** A trace has a point for each sample time. Its states are in the tube, up to one
slack below for each sample from theirs on, and its steps keep the bound. So its trajectory passes
the check with one slack for each sample as the tolerance. -/
theorem synthesize_tracks (config : TraceConfig α) (solver : SolverConfig α)
    (hslack : 0 ≤ solver.slack) (b : Boundary α) (horizon : α) (points : Trace α)
    (h : (Synthesizer.chain config solver).synthesize b horizon = .ok points) :
    points.length = config.numPoints ∧
    (∀ i (hi : i < points.length), points[i].x = horizon * i / (config.numPoints - 1) ∧
      ∃ v, TraceConstraints.target b config points[i].x = .ok v ∧
        max (v - config.epsilon) config.stateMin - (config.numPoints - i) * solver.slack ≤
          points[i].y ∧
        points[i].y ≤ min (v + config.epsilon) config.stateMax) ∧
    (∀ rate ∈ config.rateBound?, ∀ i (hi : i + 1 < points.length),
      |points[i + 1].y - points[i].y| ≤ rate) ∧
    ∃ constraints sol,
      TraceConstraints.ofBoundary b (config.times horizon) config = .ok constraints ∧
      Chain.solve constraints solver = .feasible sol ∧ sol.states = points.map Point.y ∧
      constraints.isMetBy sol (config.numPoints * solver.slack) = true := by
  obtain ⟨hconfig, s, sol, hs, hsol, rfl⟩ := Synthesizer.synthesize_eq_ok _ b horizon points h
  change TraceConstraints.ofBoundary b (config.times horizon) config = .ok s at hs
  change Chain.solve s solver = .feasible sol at hsol
  obtain ⟨-, hpoints, hrate, -⟩ := config.validate_eq_ok_iff.mp hconfig
  obtain ⟨targets, htargets, rfl⟩ := TraceConstraints.ofBoundary_eq_ok b _ config s hs
  obtain ⟨hlength, hsteps, hstates⟩ := inTubes_of_solve config targets solver hslack hrate sol hsol
  have htimes : (config.times horizon).length = config.numPoints := config.length_times horizon
  have hcount : targets.length = config.numPoints := by rw [← htargets.length_eq, htimes]
  have hmet := isMetBy_of_inTubes config targets solver.slack hslack sol (by omega) hlength
    (Chain.solve_eq_feasible _ _ sol hsol).1 hsteps hstates _ le_rfl
  rw [hcount] at hmet
  refine ⟨?_, ?_, ?_, _, sol, hs, hsol, ?_, hmet⟩
  · change (List.zipWith _ (config.times horizon) _).length = _
    rw [List.length_zipWith, htimes, hlength, hcount, min_self]
  · intro i hi
    have hx : i < sol.states.length := by simp_all
    have hv : i < targets.length := by omega
    have hbounds := hstates i hv hx
    rw [hcount] at hbounds
    simp only [List.getElem_zipWith]
    exact ⟨config.getElem_times hpoints horizon i _, targets[i], htargets.get _ hv, hbounds⟩
  · intro rate hrate i hi
    simp only [List.getElem_zipWith]
    exact hsteps.getElem i (by simp_all) rate hrate
  · change sol.states = (List.zipWith Point.mk (config.times horizon) sol.states).map Point.y
    apply List.ext_getElem <;> simp [htimes, hlength, hcount]

/-- Two samples, with a step of at most three quarters between them. -/
def ramp : TraceConfig ℚ := ⟨1 / 10, 2, some (3 / 4), 0, 1, .reject⟩

/-- A solver that accepts intervals that are empty by a tenth. -/
def lenient : SolverConfig ℚ := ⟨none, 1 / 10, fun _ => 0⟩

/-- The line from one corner of the unit square to the opposite one. -/
def diagonal : Boundary ℚ := ⟨[⟨0, 0⟩, ⟨1, 1⟩], by decide⟩

/-- The last state is below its tube, which starts at nine tenths. -/
theorem synthesize_tracks_ramp :
    0 ≤ lenient.slack ∧
    (Synthesizer.chain ramp lenient).synthesize diagonal 1 = .ok [⟨0, 1 / 10⟩, ⟨1, 17 / 20⟩] ∧
    ∃ constraints sol,
      TraceConstraints.ofBoundary diagonal (ramp.times 1) ramp = .ok constraints ∧
      Chain.solve constraints lenient = .feasible sol ∧
      constraints.isMetBy sol (2 * lenient.slack) = true := by
  have hslack : 0 ≤ lenient.slack := by norm_num [lenient]
  have hpoints : (Synthesizer.chain ramp lenient).synthesize diagonal 1 =
      .ok [⟨0, 1 / 10⟩, ⟨1, 17 / 20⟩] := by decide +kernel
  obtain ⟨-, -, -, constraints, sol, hconstraints, hsol, -, hmet⟩ :=
    synthesize_tracks ramp lenient hslack diagonal 1 _ hpoints
  exact ⟨hslack, hpoints, constraints, sol, hconstraints, hsol, hmet⟩

end BoundaryAtlas
