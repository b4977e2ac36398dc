import BoundaryAtlas.Proofs.Trace.Feasibility

/-!
# The states of an answer are nearest to the targets, from the last one back

Among all solutions, an answer without slack comes as near to the last target as it can, then with
that state as near to the target before it, and so on. So any other solution is farther from its
target at the last sample at which the two differ.
-/

namespace BoundaryAtlas.Chain

variable {α : Type} [ExactScalar α]

theorem StepsTo.symm {rate? : Option α} {x y : α} (h : StepsTo rate? x y) : StepsTo rate? y x := by
  intro rate hrate
  rw [abs_sub_comm]
  exact h rate hrate

theorem nearest_lt (target : α) (r : Interval α) (y : α) (hy : y ∈ r) (hne : nearest target r ≠ y) :
    |nearest target r - target| < |y - target| := by
  obtain ⟨hlo, hhi⟩ := hy
  rw [nearest_eq] at hne ⊢
  rcases lt_trichotomy target r.lo with hbelow | rfl | habove
  · rw [max_eq_right hbelow.le, min_eq_left (hlo.trans hhi)] at hne ⊢
    have hlt : r.lo < y := lt_of_le_of_ne hlo hne
    rw [abs_of_pos (sub_pos.mpr hbelow), abs_of_pos (sub_pos.mpr (hbelow.trans hlt))]
    exact sub_lt_sub_right hlt target
  · rw [max_self, min_eq_left (hlo.trans hhi)] at hne ⊢
    rw [sub_self, abs_zero]
    exact abs_pos.mpr (sub_ne_zero.mpr hne.symm)
  · rw [max_eq_left habove.le] at hne ⊢
    rcases le_or_gt target r.hi with hin | hover
    · rw [min_eq_left hin] at hne ⊢
      rw [sub_self, abs_zero]
      exact abs_pos.mpr (sub_ne_zero.mpr hne.symm)
    · rw [min_eq_right hover.le] at hne ⊢
      have hlt : y < r.hi := lt_of_le_of_ne hhi hne.symm
      rw [abs_of_neg (sub_neg.mpr hover), abs_of_neg (sub_neg.mpr (hlt.trans hover))]
      linarith

/-- At the last place at which `xs` and `ys` differ, `xs` is nearer to the target. -/
def NearerAtLast (targets xs ys : List α) : Prop :=
  ∃ i, IsGreatest {j : Nat | xs[j]? ≠ ys[j]?} i ∧
    ∃ target x y, targets[i]? = some target ∧ xs[i]? = some x ∧ ys[i]? = some y ∧
      |x - target| < |y - target|

theorem NearerAtLast.cons {targets xs ys : List α} (h : NearerAtLast targets xs ys)
    (target x y : α) : NearerAtLast (target :: targets) (x :: xs) (y :: ys) := by
  obtain ⟨i, ⟨hdiffer, hlast⟩, hnearer⟩ := h
  refine ⟨i + 1, ⟨by simpa using hdiffer, ?_⟩, by simpa using hnearer⟩
  intro j hj
  cases j with
  | zero => exact Nat.zero_le _
  | succ j => exact Nat.succ_le_succ (hlast (by simpa using hj))

theorem nearerAtLast_of_lt (targets xs : List α) (target x y : α)
    (h : |x - target| < |y - target|) : NearerAtLast (target :: targets) (x :: xs) (y :: xs) := by
  have hne : x ≠ y := by
    rintro rfl
    exact lt_irrefl _ h
  refine ⟨0, ⟨by simpa using hne, ?_⟩, target, x, y, rfl, rfl, rfl, h⟩
  intro j hj
  cases j with
  | zero => exact le_refl 0
  | succ j => simp at hj

theorem mem_reach_of_steps (rate? : Option α) (y : α) (r : Interval α) (ys : List α) (hy : y ∈ r)
    (hsteps : (y :: ys).IsChain (StepsTo rate?)) :
    y ∈ reach rate? (ys.head?.map fun z => ⟨z, z⟩) r := by
  refine mem_reach rate? _ r y hy ?_
  intro before hbefore
  cases ys with
  | nil => simp at hbefore
  | cons z ys =>
    obtain rfl : (⟨z, z⟩ : Interval α) = before := by simpa using hbefore
    exact ⟨z, ⟨le_refl z, le_refl z⟩, (List.isChain_cons_cons.mp hsteps).1.symm⟩

theorem nearest_reach_lt (rate? : Option α) (target y : α) (r : Interval α) (ys : List α)
    (hy : y ∈ r) (hsteps : (y :: ys).IsChain (StepsTo rate?))
    (hne : nearest target (reach rate? (ys.head?.map fun z => ⟨z, z⟩) r) ≠ y) :
    |nearest target (reach rate? (ys.head?.map fun z => ⟨z, z⟩) r) - target| < |y - target| :=
  nearest_lt target _ y (mem_reach_of_steps rate? y r ys hy hsteps) hne

/-- The sweep backward beats every other list of states from the intervals that keeps the step
bound. -/
theorem sweepBackward_nearer (c : SolverConfig α) (rate? : Option α) (total i : Nat)
    (choices : List (α × Interval α)) (xs ys : List α)
    (h : sweepBackward c rate? total i choices = .ok xs)
    (hmem : List.Forall₂ (fun y r => y ∈ r) ys (choices.map Prod.snd))
    (hsteps : ys.IsChain (StepsTo rate?)) (hne : xs ≠ ys) :
    NearerAtLast (choices.map Prod.fst) xs ys := by
  induction choices generalizing i xs ys with
  | nil =>
    obtain rfl : xs = [] := by simpa [sweepBackward] using h.symm
    obtain rfl : ys = [] := by simpa using hmem
    exact absurd rfl hne
  | cons choice rest ih =>
    obtain ⟨target, r⟩ := choice
    obtain ⟨later, hlater, rfl⟩ := sweepBackward_cons_eq_ok c rate? total i target r rest xs h
    obtain ⟨y, ys, hy, hrest, rfl⟩ := List.forall₂_cons_right_iff.mp hmem
    by_cases hsame : later = ys
    · subst hsame
      have hfirst := nearest_reach_lt rate? target y r later hy hsteps (by simpa using hne)
      exact nearerAtLast_of_lt _ later target _ y hfirst
    · exact (ih (i + 1) later ys hlater hrest hsteps.tail hsame).cons target _ y

/-- **Nearest states.** Without slack, an answer's states are nearer to the target than those of any
other solution, at the last sample at which the two differ. So the targets themselves are the answer
whenever they are a solution. -/
theorem solve_nearest (s : TraceConstraints α) (c : SolverConfig α) (hclock : c.NeverOverdue)
    (hslack : c.slack = 0) (sol : Trajectory α) (h : solve s c = .feasible sol) :
    (∀ ys, Fits s.rate? s.samples ys → sol.states ≠ ys →
      NearerAtLast (s.samples.map (·.target)) sol.states ys) ∧
    (Fits s.rate? s.samples (s.samples.map (·.target)) →
      sol.states = s.samples.map (·.target)) := by
  obtain ⟨-, ranges, hforward, hbackward⟩ := solve_eq_feasible s c sol h
  have hnearer : ∀ ys, Fits s.rate? s.samples ys → sol.states ≠ ys →
      NearerAtLast (s.samples.map (·.target)) sol.states ys := by
    intro ys hys hne
    obtain ⟨ranges', hforward', hmem⟩ :=
      sweepForward_of_fits c hclock hslack.ge s.rate? s.samples ys hys 0 none (by simp)
    obtain rfl : ranges' = ranges := by simpa [hforward] using hforward'.symm
    have hlength : ranges'.length = (s.samples.map (·.target)).length := by
      rw [← hmem.length_eq, ← hys.inside.length_eq, List.length_map]
    have hbeats := sweepBackward_nearer c s.rate? _ 0 _ sol.states ys hbackward
      (by rw [List.map_snd_zip hlength.le]; exact hmem) hys.steps hne
    rwa [List.map_fst_zip hlength.ge] at hbeats
  refine ⟨hnearer, fun htargets => ?_⟩
  by_contra hne
  obtain ⟨i, -, target, x, y, htarget, -, hy, hlt⟩ := hnearer _ htargets hne
  obtain rfl : target = y := Option.some.inj (htarget.symm.trans hy)
  rw [sub_self, abs_zero] at hlt
  exact absurd hlt (abs_nonneg _).not_gt

/-- Targets that rise and fall faster than the steps may, in tubes that leave some room. -/
def hurdle : TraceConstraints ℚ where
  samples := [⟨0, 0, 1 / 2⟩, ⟨1, 1 / 2, 1⟩, ⟨0, 0, 1 / 2⟩]
  rate? := some (1 / 3)
  epsilon := 1 / 2
  stateMin := 0
  stateMax := 1

/-- The rival is nearer to the target in the middle, but farther from the last one. -/
theorem solve_nearest_hurdle :
    strict.NeverOverdue ∧ strict.slack = 0 ∧
    solve hurdle strict = .feasible ⟨[1 / 6, 1 / 2, 1 / 6], [1 / 3, -1 / 3]⟩ ∧
    Fits hurdle.rate? hurdle.samples [1 / 2, 5 / 6, 1 / 2] ∧
    NearerAtLast (hurdle.samples.map (·.target)) [1 / 6, 1 / 2, 1 / 6] [1 / 2, 5 / 6, 1 / 2] := by
  have hclock : strict.NeverOverdue := SolverConfig.neverOverdue_of_none strict rfl
  have hanswer : solve hurdle strict = .feasible ⟨[1 / 6, 1 / 2, 1 / 6], [1 / 3, -1 / 3]⟩ := by
    decide +kernel
  have hrival : Fits hurdle.rate? hurdle.samples [1 / 2, 5 / 6, 1 / 2] := by
    constructor
    · simp only [hurdle, List.forall₂_cons, Interval.mem_iff]
      norm_num
    · simp only [hurdle, List.isChain_cons_cons, StepsTo, Option.mem_def, Option.some.injEq,
        forall_eq', abs_le]
      norm_num
  exact ⟨hclock, rfl, hanswer, hrival,
    (solve_nearest hurdle strict hclock rfl _ hanswer).1 _ hrival (by decide +kernel)⟩

end BoundaryAtlas.Chain
