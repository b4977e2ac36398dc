import BoundaryAtlas.Proofs.Trace.BackwardSweep

/-!
# What the solver answers

Both sweeps together: the states of an answer keep the step bound and the upper ends, and the lower
ends up to one slack for each sample from theirs on.
-/

namespace BoundaryAtlas

variable {α : Type}

/-- Each step leads from a state to the next one. -/
def Trajectory.Connects [Sub α] (t : Trajectory α) : Prop :=
  t.steps.length = t.states.length - 1 ∧
    ∀ i (hu : i < t.steps.length) (hx : i + 1 < t.states.length),
      t.steps[i] = t.states[i + 1] - t.states[i]

variable [ExactScalar α]

namespace Chain

theorem stepBound?_eq (s : TraceConstraints α) : stepBound? s = s.rate? := by
  simp [stepBound?]

theorem solve_ends (s : TraceConstraints α) (c : SolverConfig α) :
    (∃ ranges sol, solve s c = .feasible sol ∧ sol.Connects ∧
      sweepForward c s.rate? 0 none s.samples = .ok ranges ∧
      sweepBackward c s.rate? s.samples.length 0 ((s.samples.map (·.target)).zip ranges) =
        .ok sol.states) ∨
    (∃ i, solve s c = .infeasible i ∧
      sweepForward c s.rate? 0 none s.samples = .error (.infeasible i)) ∨
    ∃ step elapsed, overdue? c step = some elapsed ∧ solve s c = .timedOut elapsed := by
  unfold solve sweeps
  rw [stepBound?_eq]
  obtain ⟨ranges, hforward⟩ | ⟨i, hforward⟩ | ⟨step, elapsed, hover, hforward⟩ :=
    sweepForward_ends c s.rate? s.samples 0 none
  · simp only [hforward, bind, Except.bind]
    obtain ⟨xs, hbackward⟩ | ⟨step, elapsed, hover, hbackward⟩ := sweepBackward_ends c s.rate?
      s.samples.length 0 ((s.samples.map (·.target)).zip ranges)
    · refine .inl ⟨ranges, _, by rw [hbackward], ⟨?_, ?_⟩, rfl, hbackward⟩
      · simp [length_neighbours]
      · intro i hu hx
        rw [List.getElem_map, getElem_neighbours xs i _ hx]
    · exact .inr (.inr ⟨step, elapsed, hover, by rw [hbackward]⟩)
  · exact .inr (.inl ⟨i, by rw [hforward]; rfl, hforward⟩)
  · exact .inr (.inr ⟨step, elapsed, hover, by rw [hforward]; rfl⟩)

theorem solve_eq_feasible (s : TraceConstraints α) (c : SolverConfig α) (sol : Trajectory α)
    (h : solve s c = .feasible sol) :
    sol.Connects ∧ ∃ ranges, sweepForward c s.rate? 0 none s.samples = .ok ranges ∧
      sweepBackward c s.rate? s.samples.length 0 ((s.samples.map (·.target)).zip ranges) =
        .ok sol.states := by
  obtain ⟨ranges, sol', h', hconnects, hforward, hbackward⟩ | ⟨i, h', -⟩ | ⟨-, elapsed, -, h'⟩ :=
    solve_ends s c
  · obtain rfl : sol' = sol := by simpa [h'] using h
    exact ⟨hconnects, ranges, hforward, hbackward⟩
  · simp [h'] at h
  · simp [h'] at h

/-! ## Bounds -/

theorem Settles.bounds {slack : α} {ranges : List (Interval α)} {xs : List α}
    (h : Settles slack ranges xs) (samples : List (TubeSample α))
    (hnarrows : List.Forall₂ (Narrows slack) samples ranges) :
    ∀ i (hs : i < samples.length) (hx : i < xs.length),
      samples[i].range.lo - (samples.length - i : Nat) * slack ≤ xs[i] ∧
      xs[i] ≤ samples[i].range.hi := by
  induction h generalizing samples with
  | nil => intro i hs hx; simp at hx
  | @cons r rs y ys above below later ih =>
    obtain ⟨s, samples, hr, hrest, rfl⟩ := List.forall₂_cons_right_iff.mp hnarrows
    have hlength : ys.length = samples.length := by
      rw [later.length_eq, hrest.length_eq]
    intro i hs hx
    cases i with
    | zero =>
      refine ⟨?_, below.trans hr.below⟩
      have habove := hr.above
      simp only [List.length_cons, List.getElem_cons_zero, Nat.sub_zero, Nat.cast_succ, ← hlength]
      linarith
    | succ i => simpa using ih samples hrest i (by simpa using hs) (by simpa using hx)

theorem solve_bounds (s : TraceConstraints α) (c : SolverConfig α) (hslack : 0 ≤ c.slack)
    (hrate : ∀ rate ∈ s.rate?, 0 ≤ rate) (sol : Trajectory α) (h : solve s c = .feasible sol) :
    sol.states.length = s.samples.length ∧ sol.states.IsChain (StepsTo s.rate?) ∧
    ∀ i (hs : i < s.samples.length) (hx : i < sol.states.length),
      s.samples[i].range.lo - (s.samples.length - i : Nat) * c.slack ≤ sol.states[i] ∧
      sol.states[i] ≤ s.samples[i].range.hi := by
  obtain ⟨-, ranges, hforward, hbackward⟩ := solve_eq_feasible s c sol h
  obtain ⟨hnarrows, hproper, hlinked⟩ :=
    sweepForward_narrows c hslack s.rate? s.samples ranges 0 none hforward
  have hranges : ((s.samples.map (·.target)).zip ranges).map Prod.snd = ranges := by
    apply List.map_snd_zip
    simp [hnarrows.length_eq]
  obtain ⟨hsettles, hsteps⟩ := sweepBackward_settles c hslack s.rate? hrate _ 0 _ sol.states
    (by rw [hranges]; exact hproper) (by rw [hranges]; exact hlinked) hbackward
  rw [hranges] at hsettles
  refine ⟨?_, hsteps, hsettles.bounds s.samples hnarrows⟩
  rw [hsettles.length_eq, hnarrows.length_eq]

theorem solve_fits (s : TraceConstraints α) (c : SolverConfig α) (hslack : c.slack = 0)
    (hrate : ∀ rate ∈ s.rate?, 0 ≤ rate) (sol : Trajectory α) (h : solve s c = .feasible sol) :
    Fits s.rate? s.samples sol.states := by
  obtain ⟨hlength, hsteps, hbounds⟩ := solve_bounds s c hslack.ge hrate sol h
  refine ⟨List.forall₂_iff_get.mpr ⟨hlength.symm, ?_⟩, hsteps⟩
  intro i hs hx
  simpa [hslack, Interval.mem_iff] using hbounds i hs hx

end Chain

end BoundaryAtlas
