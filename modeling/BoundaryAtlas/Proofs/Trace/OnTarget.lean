import BoundaryAtlas.Proofs.Trace.Nearest
import BoundaryAtlas.Proofs.Trace.Targets

/-!
# Traces that are on target

Targets that are a solution are the solver's answer, with any slack. So a boundary that stays in the
state box and keeps the step bound from sample to sample is its own trace.
-/

namespace BoundaryAtlas

variable {α : Type} [ExactScalar α]

/-! ## The solver -/

namespace Chain

theorem nearest_of_mem (target : α) (r : Interval α) (h : target ∈ r) :
    nearest target r = target := by
  rw [nearest_eq, max_eq_left h.1, min_eq_left h.2]

theorem sweepBackward_eq_targets (c : SolverConfig α) (rate? : Option α) (total i : Nat)
    (choices : List (α × Interval α)) (xs : List α)
    (hmem : ∀ choice ∈ choices, choice.1 ∈ choice.2)
    (hsteps : (choices.map Prod.fst).IsChain (StepsTo rate?))
    (h : sweepBackward c rate? total i choices = .ok xs) : xs = choices.map Prod.fst := by
  induction choices generalizing i xs with
  | nil =>
    cases h
    rfl
  | cons choice rest ih =>
    obtain ⟨target, r⟩ := choice
    obtain ⟨later, hlater, rfl⟩ := sweepBackward_cons_eq_ok c rate? total i target r rest xs h
    obtain ⟨hr, hrest⟩ := List.forall_mem_cons.mp hmem
    rw [List.map_cons] at hsteps ⊢
    obtain rfl := ih (i + 1) later hrest hsteps.tail hlater
    rw [nearest_of_mem target _ (mem_reach_of_steps rate? target r _ hr hsteps)]

theorem solve_eq_targets (s : TraceConstraints α) (c : SolverConfig α) (hclock : c.NeverOverdue)
    (hslack : 0 ≤ c.slack) (hfits : Fits s.rate? s.samples (s.samples.map (·.target))) :
    ∃ sol, solve s c = .feasible sol ∧ sol.states = s.samples.map (·.target) := by
  obtain ⟨sol, hsol⟩ := solve_of_solvable s c hclock hslack ⟨_, hfits⟩
  obtain ⟨-, ranges, hforward, hbackward⟩ := solve_eq_feasible s c sol hsol
  obtain ⟨ranges', hforward', hmem⟩ :=
    sweepForward_of_fits c hclock hslack s.rate? s.samples _ hfits 0 none (by simp)
  obtain rfl : ranges' = ranges := by simpa [hforward] using hforward'.symm
  obtain ⟨hlength, hin⟩ := List.forall₂_iff_zip.mp hmem
  have hfst := List.map_fst_zip hlength.le
  refine ⟨sol, hsol, ?_⟩
  rw [sweepBackward_eq_targets c s.rate? _ 0 _ sol.states (fun _ h => hin h)
    (by rw [hfst]; exact hfits.steps) hbackward, hfst]

theorem fits_around (config : TraceConfig α) (hwidth : 0 ≤ config.epsilon) (targets : List α)
    (hbox : ∀ v ∈ targets, v ∈ (⟨config.stateMin, config.stateMax⟩ : Interval α))
    (hsteps : targets.IsChain (StepsTo config.rateBound?)) :
    Fits config.rateBound? (TraceConstraints.around config targets).samples targets := by
  refine ⟨?_, hsteps⟩
  unfold TraceConstraints.around
  rw [List.forall₂_map_left_iff, List.forall₂_same]
  intro v hv
  obtain ⟨hlo, hhi⟩ := hbox v hv
  unfold TraceConstraints.tube
  rw [ExactScalar.larger_eq, ExactScalar.smaller_eq, Interval.mem_iff, max_le_iff, le_min_iff]
  exact ⟨⟨sub_le_self v hwidth, hlo⟩, le_add_of_nonneg_right hwidth, hhi⟩

end Chain

/-! ## Traces -/

theorem Synthesizer.synthesize_on_target (config : TraceConfig α) (solver : SolverConfig α)
    (hclock : solver.NeverOverdue) (hslack : 0 ≤ solver.slack) (b : Boundary α) (horizon : α)
    (hconfig : config.validate = .ok ()) (hhorizon : 0 < horizon) (hdomain : b.domain = ⟨0, horizon⟩)
    (hbox : ∀ t ∈ b.domain, b.valueInside t ∈ (⟨config.stateMin, config.stateMax⟩ : Interval α))
    (hsteps : ((config.times horizon).map b.valueInside).IsChain
      (Chain.StepsTo config.rateBound?)) :
    (chain config solver).synthesize b horizon =
      .ok ((config.times horizon).map fun t => ⟨t, b.valueInside t⟩) := by
  obtain ⟨hwidth, hpoints, -⟩ := config.validate_eq_ok_iff.mp hconfig
  have hvalues : ∀ v ∈ (config.times horizon).map b.valueInside,
      v ∈ (⟨config.stateMin, config.stateMax⟩ : Interval α) := by
    rw [List.forall_mem_map]
    intro t ht
    apply hbox
    rw [hdomain]
    exact config.mem_of_mem_times hpoints horizon t hhorizon.le ht
  have htargets : (TraceConstraints.around config
      ((config.times horizon).map b.valueInside)).samples.map (·.target) =
        (config.times horizon).map b.valueInside := by
    simp [TraceConstraints.around, TraceConstraints.tube, Function.comp_def]
  obtain ⟨sol, hsol, hstates⟩ := Chain.solve_eq_targets
    (.around config ((config.times horizon).map b.valueInside)) solver hclock hslack
    (by rw [htargets]; exact Chain.fits_around config hwidth.le _ hvalues hsteps)
  rw [synthesize_of_domain _ b horizon hconfig hhorizon hdomain]
  change (Chain.solve (.around config ((config.times horizon).map b.valueInside)) solver).toTrace
    (config.times horizon) = _
  rw [hsol, SolverAnswer.toTrace, hstates, htargets, List.zipWith_map_right, List.zipWith_self]

end BoundaryAtlas
