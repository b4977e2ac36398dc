import BoundaryAtlas.Proofs.Trace.Feasibility
import BoundaryAtlas.Proofs.Trace.Synthesis

/-!
# Steps without a bound

If steps have no bound, then a sample has no say in the states of the others. A trace is found
exactly if each tube has a state, and its states are the targets, clamped to the state box. So the
width of the tubes decides whether there is a trace, and not which one.
-/

namespace BoundaryAtlas

variable {α : Type} [ExactScalar α]

/-! ## The solver -/

namespace Chain

theorem reach_none (before? : Option (Interval α)) (range : Interval α) :
    reach none before? range = range := by
  cases before? <;> rfl

theorem solvable_none_iff (samples : List (TubeSample α)) :
    Solvable none samples ↔ ∀ s ∈ samples, s.range.lo ≤ s.range.hi := by
  constructor
  · rintro ⟨xs, hinside, -⟩ s hs
    obtain ⟨i, hi, rfl⟩ := List.getElem_of_mem hs
    obtain ⟨hlo, hhi⟩ := hinside.get hi (hinside.length_eq ▸ hi)
    exact hlo.trans hhi
  · intro h
    refine ⟨samples.map fun s => s.range.lo, ?_, ?_⟩
    · rw [List.forall₂_map_right_iff, List.forall₂_same]
      exact fun s hs => ⟨le_refl _, h s hs⟩
    · exact (List.pairwise_iff_get.mpr fun _ _ _ => by simp [StepsTo]).isChain

theorem sweepForward_none (c : SolverConfig α) (hslack : c.slack = 0) (i : Nat)
    (before? : Option (Interval α)) (samples : List (TubeSample α)) (ranges : List (Interval α))
    (h : sweepForward c none i before? samples = .ok ranges) :
    ranges = samples.map fun s => s.range := by
  induction samples generalizing i before? ranges with
  | nil =>
    cases h
    rfl
  | cons s rest ih =>
    obtain ⟨hproper, later, rfl, hlater⟩ := sweepForward_cons_eq_ok c none i before? s rest _ h
    rw [reach_none, hslack, add_zero] at hproper
    rw [ih _ _ _ hlater, reach_none, collapse_eq, min_eq_left hproper, List.map_cons]

theorem sweepBackward_none (c : SolverConfig α) (total i : Nat) (choices : List (α × Interval α))
    (xs : List α) (h : sweepBackward c none total i choices = .ok xs) :
    xs = choices.map fun choice => nearest choice.1 choice.2 := by
  induction choices generalizing i xs with
  | nil =>
    cases h
    rfl
  | cons choice rest ih =>
    obtain ⟨later, hlater, rfl⟩ := sweepBackward_cons_eq_ok c none total i _ _ rest xs h
    rw [reach_none, ih _ _ hlater, List.map_cons]

theorem solve_none_iff (s : TraceConstraints α) (c : SolverConfig α) (hclock : c.NeverOverdue)
    (hslack : c.slack = 0) (hrate : s.rate? = none) (states : List α) :
    (∃ sol, solve s c = .feasible sol ∧ sol.states = states) ↔
      (∀ sample ∈ s.samples, sample.range.lo ≤ sample.range.hi) ∧
        states = s.samples.map fun sample => nearest sample.target sample.range := by
  have hstates : ∀ sol, solve s c = .feasible sol →
      sol.states = s.samples.map fun sample => nearest sample.target sample.range := by
    intro sol h
    obtain ⟨-, ranges, hforward, hbackward⟩ := solve_eq_feasible s c sol h
    rw [hrate] at hforward hbackward
    rw [sweepForward_none c hslack _ _ _ _ hforward] at hbackward
    rw [sweepBackward_none c _ _ _ _ hbackward, List.zip_map', List.map_map]
    rfl
  constructor
  · rintro ⟨sol, h, rfl⟩
    have hfits := solve_fits s c hslack (by simp [hrate]) sol h
    rw [hrate] at hfits
    exact ⟨(solvable_none_iff _).mp ⟨_, hfits⟩, hstates sol h⟩
  · rintro ⟨hproper, rfl⟩
    obtain ⟨sol, h⟩ := solve_of_solvable s c hclock hslack.ge
      (by rw [hrate]; exact (solvable_none_iff _).mpr hproper)
    exact ⟨sol, h, hstates sol h⟩

end Chain

/-! ## Tubes -/

/-- The tube of a target has a state. -/
def TraceConfig.Admits (c : TraceConfig α) (v : α) : Prop :=
  (TraceConstraints.tube c v).range.lo ≤ (TraceConstraints.tube c v).range.hi

namespace TraceConfig

variable (c : TraceConfig α) (v : α)

theorem admits_iff :
    c.Admits v ↔ (v - c.epsilon ≤ v + c.epsilon ∧ v - c.epsilon ≤ c.stateMax) ∧
      c.stateMin ≤ v + c.epsilon ∧ c.stateMin ≤ c.stateMax := by
  unfold Admits TraceConstraints.tube
  rw [ExactScalar.larger_eq, ExactScalar.smaller_eq, max_le_iff, le_min_iff, le_min_iff]

theorem admits_of_mem (hwidth : 0 ≤ c.epsilon) (hv : v ∈ (⟨c.stateMin, c.stateMax⟩ : Interval α)) :
    c.Admits v := by
  obtain ⟨hlo, hhi⟩ := hv
  rw [admits_iff]
  refine ⟨⟨?_, ?_⟩, ?_, ?_⟩ <;> linarith

theorem nearest_tube (hwidth : 0 ≤ c.epsilon) (h : c.Admits v) :
    Chain.nearest v (TraceConstraints.tube c v).range = Scalar.clamp v c.stateMin c.stateMax := by
  obtain ⟨-, hlo, -⟩ := (c.admits_iff v).mp h
  have hraise : max v (max (v - c.epsilon) c.stateMin) = max v c.stateMin := by
    rw [← max_assoc, max_eq_left (sub_le_self v hwidth)]
  have hcut : max v c.stateMin ≤ v + c.epsilon := max_le (le_add_of_nonneg_right hwidth) hlo
  rw [Chain.nearest_eq, ExactScalar.clamp_eq]
  unfold TraceConstraints.tube
  rw [ExactScalar.larger_eq, ExactScalar.smaller_eq, hraise, ← min_assoc, min_eq_left hcut]

/-- The settings with tubes of another width. -/
def widened (epsilon : α) : TraceConfig α := { c with epsilon := epsilon }

theorem admits_widened (epsilon : α) (hle : c.epsilon ≤ epsilon) (h : c.Admits v) :
    (c.widened epsilon).Admits v := by
  obtain ⟨⟨hself, hhi⟩, hlo, hbox⟩ := (c.admits_iff v).mp h
  rw [admits_iff]
  change (v - epsilon ≤ v + epsilon ∧ v - epsilon ≤ c.stateMax) ∧
    c.stateMin ≤ v + epsilon ∧ c.stateMin ≤ c.stateMax
  refine ⟨⟨?_, ?_⟩, ?_, hbox⟩ <;> linarith

theorem validate_widened (epsilon : α) (hle : c.epsilon ≤ epsilon) (h : c.validate = .ok ()) :
    (c.widened epsilon).validate = .ok () := by
  rw [validate_eq_ok_iff] at h ⊢
  exact ⟨h.1.trans_le hle, h.2⟩

end TraceConfig

/-! ## Traces -/

section Traces

variable (config : TraceConfig α) (solver : SolverConfig α)

theorem Chain.solve_around_none_iff (hclock : solver.NeverOverdue) (hslack : solver.slack = 0)
    (hrate : config.rateBound? = none) (hwidth : 0 ≤ config.epsilon) (targets states : List α) :
    (∃ sol, solve (.around config targets) solver = .feasible sol ∧ sol.states = states) ↔
      (∀ v ∈ targets, config.Admits v) ∧
        states = targets.map fun v => Scalar.clamp v config.stateMin config.stateMax := by
  rw [solve_none_iff _ solver hclock hslack hrate]
  unfold TraceConstraints.around
  rw [List.forall_mem_map, List.map_map]
  refine and_congr_right fun hadmits => ?_
  have hstates : targets.map (fun v => nearest v (TraceConstraints.tube config v).range) =
      targets.map fun v => Scalar.clamp v config.stateMin config.stateMax :=
    List.map_congr_left fun v hv => config.nearest_tube v hwidth (hadmits v hv)
  rw [← hstates]
  rfl

namespace Synthesizer

theorem synthesize_none_iff (hclock : solver.NeverOverdue) (hslack : solver.slack = 0)
    (hrate : config.rateBound? = none) (b : Boundary α) (horizon : α) (points : Trace α) :
    (chain config solver).synthesize b horizon = .ok points ↔
      config.validate = .ok () ∧ horizonOk horizon = true ∧
      ∃ targets, List.Forall₂ (fun t v => TraceConstraints.target b config t = .ok v)
          (config.times horizon) targets ∧
        (∀ v ∈ targets, config.Admits v) ∧
        points = List.zipWith Point.mk (config.times horizon)
          (targets.map fun v => Scalar.clamp v config.stateMin config.stateMax) := by
  rw [synthesize_eq_ok_iff]
  refine and_congr_right fun hconfig => and_congr_right fun _ => exists_congr fun targets =>
    and_congr_right fun _ => ?_
  have hwidth := (config.validate_eq_ok_iff.mp hconfig).1.le
  have hsolve := Chain.solve_around_none_iff config solver hclock hslack hrate hwidth targets
  constructor
  · rintro ⟨sol, hsol, rfl⟩
    obtain ⟨hadmits, hstates⟩ := (hsolve sol.states).mp ⟨sol, hsol, rfl⟩
    refine ⟨hadmits, ?_⟩
    rw [hstates]
    rfl
  · rintro ⟨hadmits, rfl⟩
    obtain ⟨sol, hsol, hstates⟩ := (hsolve _).mpr ⟨hadmits, rfl⟩
    refine ⟨sol, hsol, ?_⟩
    rw [hstates]
    rfl

theorem synthesize_widened (hclock : solver.NeverOverdue) (hslack : solver.slack = 0)
    (hrate : config.rateBound? = none) (epsilon : α) (hle : config.epsilon ≤ epsilon)
    (b : Boundary α) (horizon : α) (points : Trace α)
    (h : (chain config solver).synthesize b horizon = .ok points) :
    (chain (config.widened epsilon) solver).synthesize b horizon = .ok points := by
  rw [synthesize_none_iff _ solver hclock hslack hrate] at h
  obtain ⟨hconfig, hok, targets, htargets, hadmits, hpoints⟩ := h
  rw [synthesize_none_iff (config.widened epsilon) solver hclock hslack hrate]
  exact ⟨config.validate_widened epsilon hle hconfig, hok, targets, htargets,
    fun v hv => config.admits_widened v epsilon hle (hadmits v hv), hpoints⟩

end Synthesizer

end Traces

end BoundaryAtlas
