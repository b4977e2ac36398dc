import Mathlib.Order.Bounds.Basic
import Mathlib.Tactic.NormNum
import BoundaryAtlas.Proofs.Trace.Solution

/-!
# The solver decides whether there is a trace

Without slack the solver finds states for the samples whenever there are some, and otherwise names
the first sample at which it becomes impossible. With slack it never gives up too early.
-/

namespace BoundaryAtlas.Chain

variable {α : Type} [ExactScalar α]

/-- There are states for all samples that fit together. -/
def Solvable (rate? : Option α) (samples : List (TubeSample α)) : Prop :=
  ∃ xs, Fits rate? samples xs

theorem Solvable.take {rate? : Option α} {samples : List (TubeSample α)}
    (h : Solvable rate? samples) (n : Nat) : Solvable rate? (samples.take n) := by
  obtain ⟨xs, hinside, hsteps⟩ := h
  exact ⟨xs.take n, List.forall₂_take n hinside, hsteps.take n⟩

theorem solve_cases (s : TraceConstraints α) (c : SolverConfig α) (hclock : c.NeverOverdue) :
    (∃ ranges sol, sweepForward c s.rate? 0 none s.samples = .ok ranges ∧
      solve s c = .feasible sol) ∨
    ∃ i, sweepForward c s.rate? 0 none s.samples = .error (.infeasible i) ∧
      solve s c = .infeasible i := by
  obtain ⟨ranges, sol, hsol, -, hok, -⟩ | ⟨i, hi, hstop⟩ | ⟨step, elapsed, hover, -⟩ :=
    solve_ends s c
  · exact .inl ⟨ranges, sol, hok, hsol⟩
  · exact .inr ⟨i, hstop, hi⟩
  · simp [hclock step] at hover

theorem sweepForward_of_solvable (c : SolverConfig α) (hclock : c.NeverOverdue)
    (hslack : 0 ≤ c.slack) (rate? : Option α) (samples : List (TubeSample α))
    (h : Solvable rate? samples) : ∃ ranges, sweepForward c rate? 0 none samples = .ok ranges := by
  obtain ⟨xs, hfits⟩ := h
  obtain ⟨ranges, hok, -⟩ := sweepForward_of_fits c hclock hslack rate? samples xs hfits 0 none
    (by simp)
  exact ⟨ranges, hok⟩

theorem solve_of_solvable (s : TraceConstraints α) (c : SolverConfig α) (hclock : c.NeverOverdue)
    (hslack : 0 ≤ c.slack) (h : Solvable s.rate? s.samples) :
    ∃ sol, solve s c = .feasible sol := by
  obtain ⟨ranges, hok⟩ := sweepForward_of_solvable c hclock hslack s.rate? s.samples h
  obtain ⟨-, sol, -, hsol⟩ | ⟨i, hstop, -⟩ := solve_cases s c hclock
  · exact ⟨sol, hsol⟩
  · simp [hok] at hstop

theorem solve_eq_infeasible (s : TraceConstraints α) (c : SolverConfig α)
    (hclock : c.NeverOverdue) (hslack : 0 ≤ c.slack) (i : Nat) (h : solve s c = .infeasible i) :
    i < s.samples.length ∧ ¬ Solvable s.rate? (s.samples.take (i + 1)) ∧
      ∃ sol, solve { s with samples := s.samples.take i } c = .feasible sol := by
  obtain ⟨-, sol, -, hsol⟩ | ⟨j, hforward, hj⟩ := solve_cases s c hclock
  · simp [hsol] at h
  obtain rfl : j = i := by simpa [hj] using h
  obtain ⟨k, hk, hjk, ⟨ranges, hok⟩, hstop⟩ :=
    sweepForward_eq_infeasible c s.rate? s.samples 0 j none hforward
  obtain rfl : k = j := by omega
  refine ⟨hk, ?_, ?_⟩
  · intro hsolvable
    obtain ⟨ranges, hranges⟩ := sweepForward_of_solvable c hclock hslack s.rate? _ hsolvable
    simp [hranges] at hstop
  · obtain ⟨-, sol, -, hsol⟩ | ⟨j, hstop, -⟩ :=
      solve_cases { s with samples := s.samples.take k } c hclock
    · exact ⟨sol, hsol⟩
    · simp [hok] at hstop

/-- **Feasibility.** Without slack the solver answers with states exactly if there are some, and
its own states are a solution. Otherwise it names the first sample for which the samples up to it
have no solution. With any slack, the samples up to the one that it names have none. -/
theorem solve_decides (s : TraceConstraints α) (c : SolverConfig α) (hclock : c.NeverOverdue)
    (hslack : 0 ≤ c.slack) (hrate : ∀ rate ∈ s.rate?, 0 ≤ rate) :
    (c.slack = 0 →
      ((∃ sol, solve s c = .feasible sol) ↔ Solvable s.rate? s.samples) ∧
      (∀ sol, solve s c = .feasible sol → Fits s.rate? s.samples sol.states ∧ sol.Connects) ∧
      (¬ Solvable s.rate? s.samples → ∃ i < s.samples.length, solve s c = .infeasible i ∧
        IsLeast {j | ¬ Solvable s.rate? (s.samples.take (j + 1))} i)) ∧
    ∀ i, solve s c = .infeasible i →
      i < s.samples.length ∧ ¬ Solvable s.rate? (s.samples.take (i + 1)) := by
  constructor
  · intro hexact
    refine ⟨⟨?_, solve_of_solvable s c hclock hslack⟩, ?_, ?_⟩
    · rintro ⟨sol, h⟩
      exact ⟨sol.states, solve_fits s c hexact hrate sol h⟩
    · intro sol h
      exact ⟨solve_fits s c hexact hrate sol h, (solve_eq_feasible s c sol h).1⟩
    · intro hnone
      obtain ⟨-, sol, -, hsol⟩ | ⟨i, -, hi⟩ := solve_cases s c hclock
      · exact absurd ⟨sol.states, solve_fits s c hexact hrate sol hsol⟩ hnone
      · obtain ⟨hlt, hempty, sol, hsol⟩ := solve_eq_infeasible s c hclock hslack i hi
        refine ⟨i, hlt, hi, hempty, ?_⟩
        -- a beginning that ends before sample `i` is a beginning of one that has a solution
        intro j hj
        by_contra hji
        have hbefore : Solvable s.rate? (s.samples.take i) :=
          ⟨sol.states, solve_fits { s with samples := s.samples.take i } c hexact hrate sol hsol⟩
        have htake := hbefore.take (j + 1)
        rw [List.take_take, min_eq_left (by omega)] at htake
        exact hj htake
  · intro i h
    obtain ⟨hlt, hempty, -⟩ := solve_eq_infeasible s c hclock hslack i h
    exact ⟨hlt, hempty⟩

/-- Three samples that rise faster than the steps may. -/
def climb : TraceConstraints ℚ where
  samples := [⟨0, 0, 1 / 10⟩, ⟨1 / 2, 2 / 5, 3 / 5⟩, ⟨1, 9 / 10, 1⟩]
  rate? := some (1 / 3)
  epsilon := 1 / 10
  stateMin := 0
  stateMax := 1

/-- A solver without slack and without a limit on its time. -/
def strict : SolverConfig ℚ := ⟨none, 0, fun _ => 0⟩

theorem solve_decides_climb :
    strict.NeverOverdue ∧ 0 ≤ strict.slack ∧ (∀ rate ∈ climb.rate?, 0 ≤ rate) ∧
    solve climb strict = .infeasible 2 ∧
    IsLeast {j | ¬ Solvable climb.rate? (climb.samples.take (j + 1))} 2 := by
  have hclock : strict.NeverOverdue := SolverConfig.neverOverdue_of_none strict rfl
  have hslack : 0 ≤ strict.slack := le_refl 0
  have hrate : ∀ rate ∈ climb.rate?, 0 ≤ rate := by
    rintro _ ⟨rfl⟩
    norm_num
  have hanswer : solve climb strict = .infeasible 2 := by decide +kernel
  obtain ⟨hexact, hsound⟩ := solve_decides climb strict hclock hslack hrate
  obtain ⟨-, -, hfirst⟩ := hexact rfl
  obtain ⟨i, -, hi, hleast⟩ := hfirst (hsound 2 hanswer).2
  obtain rfl : i = 2 := by simpa [hanswer] using hi.symm
  exact ⟨hclock, hslack, hrate, hanswer, hleast⟩

end BoundaryAtlas.Chain
