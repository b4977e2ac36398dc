import Mathlib.Data.List.Chain
import Mathlib.Data.List.Forall2
import Mathlib.Tactic.Linarith
import BoundaryAtlas.Proofs.Exact
import BoundaryAtlas.Trace.Chain

/-!
# The sweep forward

The interval that the sweep keeps for a sample holds every state that a solution can have there, so
an empty interval means that there is no solution. The intervals that are kept fit to each other, up
to the slack.
-/

namespace BoundaryAtlas

variable {α : Type}

/-- The solver always comes back before its time is over. -/
def SolverConfig.NeverOverdue (c : SolverConfig α) : Prop := ∀ step, Chain.overdue? c step = none

theorem SolverConfig.neverOverdue_of_none (c : SolverConfig α) (h : c.timeoutMs? = none) :
    c.NeverOverdue := by
  intro step
  unfold Chain.overdue?
  rw [h]

variable [ExactScalar α]

instance : Membership α (Interval α) := ⟨fun r x => r.lo ≤ x ∧ x ≤ r.hi⟩

theorem Interval.mem_iff (r : Interval α) (x : α) : x ∈ r ↔ r.lo ≤ x ∧ x ≤ r.hi := Iff.rfl

namespace Chain

/-! ## Solutions -/

/-- The state `y` is at most one step from `x`. -/
def StepsTo (rate? : Option α) (x y : α) : Prop := ∀ rate ∈ rate?, |y - x| ≤ rate

/-- One state for each sample, inside its interval and at most one step from the state before. -/
structure Fits (rate? : Option α) (samples : List (TubeSample α)) (xs : List α) : Prop where
  inside : List.Forall₂ (fun s x => x ∈ s.range) samples xs
  steps : xs.IsChain (StepsTo rate?)

/-! ## One step of the sweep -/

/-- The part of a sample's interval that can be reached from the interval before it. -/
def reach (rate? : Option α) (before? : Option (Interval α)) (range : Interval α) : Interval α :=
  before?.elim range fun before => within rate? before range

theorem mem_within (rate? : Option α) (near range : Interval α) (x : α) :
    x ∈ within rate? near range ↔
      x ∈ range ∧ ∀ rate ∈ rate?, near.lo - rate ≤ x ∧ x ≤ near.hi + rate := by
  cases rate? with
  | none => simp [within]
  | some rate =>
    simp only [within, ExactScalar.larger_eq, ExactScalar.smaller_eq, Interval.mem_iff, max_le_iff,
      le_min_iff, Option.mem_some_iff, forall_eq']
    tauto

theorem mem_reach (rate? : Option α) (before? : Option (Interval α)) (range : Interval α) (x : α)
    (hx : x ∈ range) (h : ∀ before ∈ before?, ∃ w ∈ before, StepsTo rate? w x) :
    x ∈ reach rate? before? range := by
  cases before? with
  | none => exact hx
  | some before =>
    obtain ⟨w, ⟨hlo, hhi⟩, hstep⟩ := h before rfl
    refine (mem_within rate? before range x).mpr ⟨hx, ?_⟩
    intro rate hrate
    obtain ⟨hdown, hup⟩ := abs_le.mp (hstep rate hrate)
    constructor <;> linarith

/-- The interval `r` lies in the sample's interval, up to the slack below. -/
structure Narrows (slack : α) (s : TubeSample α) (r : Interval α) : Prop where
  above : s.range.lo ≤ r.lo + slack
  below : r.hi ≤ s.range.hi

/-- The ends of `r'` are at most one step from those of `r`, up to the slack below. -/
def Linked (slack : α) (rate? : Option α) (r r' : Interval α) : Prop :=
  ∀ rate ∈ rate?, r.lo - rate ≤ r'.lo + slack ∧ r'.hi ≤ r.hi + rate

theorem collapse_eq (r : Interval α) : collapse r = ⟨min r.lo r.hi, r.hi⟩ := by
  unfold collapse
  split
  · rw [min_eq_right (le_of_lt (by assumption))]
  · rw [min_eq_left (not_lt.mp (by assumption))]

theorem le_collapse_lo (slack : α) (hslack : 0 ≤ slack) (r : Interval α)
    (h : r.lo ≤ r.hi + slack) : r.lo ≤ (collapse r).lo + slack := by
  rw [collapse_eq, ← min_add_add_right, le_min_iff]
  exact ⟨le_add_of_nonneg_right hslack, h⟩

theorem narrows_collapse_reach (slack : α) (hslack : 0 ≤ slack) (rate? : Option α)
    (before? : Option (Interval α)) (s : TubeSample α)
    (h : (reach rate? before? s.range).lo ≤ (reach rate? before? s.range).hi + slack) :
    Narrows slack s (collapse (reach rate? before? s.range)) := by
  have hends : s.range.lo ≤ (reach rate? before? s.range).lo ∧
      (reach rate? before? s.range).hi ≤ s.range.hi := by
    cases before? <;> cases rate? <;> simp [reach, within]
  refine ⟨hends.1.trans (le_collapse_lo slack hslack _ h), ?_⟩
  rw [collapse_eq]
  exact hends.2

theorem linked_collapse_reach (slack : α) (hslack : 0 ≤ slack) (rate? : Option α)
    (before range : Interval α)
    (h : (reach rate? (some before) range).lo ≤ (reach rate? (some before) range).hi + slack) :
    Linked slack rate? before (collapse (reach rate? (some before) range)) := by
  rintro rate ⟨rfl⟩
  have hends : before.lo - rate ≤ (reach (some rate) (some before) range).lo ∧
      (reach (some rate) (some before) range).hi ≤ before.hi + rate := by
    simp [reach, within]
  refine ⟨hends.1.trans (le_collapse_lo slack hslack _ h), ?_⟩
  rw [collapse_eq]
  exact hends.2

theorem sweepForward_cons (c : SolverConfig α) (rate? : Option α) (i : Nat)
    (before? : Option (Interval α)) (s : TubeSample α) (rest : List (TubeSample α))
    (h : overdue? c i = none) :
    sweepForward c rate? i before? (s :: rest) =
      if (reach rate? before? s.range).hi + c.slack < (reach rate? before? s.range).lo then
        .error (.infeasible i)
      else (sweepForward c rate? (i + 1) (some (collapse (reach rate? before? s.range))) rest).map
        (collapse (reach rate? before? s.range) :: ·) := by
  conv_lhs => unfold sweepForward
  rw [h]
  cases before? with
  | none =>
    simp only [reach, Option.elim]
    cases sweepForward c rate? (i + 1) (some (collapse s.range)) rest <;> rfl
  | some before =>
    simp only [reach, Option.elim]
    cases sweepForward c rate? (i + 1) (some (collapse (within rate? before s.range))) rest <;> rfl

theorem sweepForward_cons_overdue (c : SolverConfig α) (rate? : Option α) (i : Nat)
    (before? : Option (Interval α)) (s : TubeSample α) (rest : List (TubeSample α)) (elapsed : Nat)
    (h : overdue? c i = some elapsed) :
    sweepForward c rate? i before? (s :: rest) = .error (.timedOut elapsed) := by
  unfold sweepForward
  rw [h]

theorem sweepForward_cons_eq_ok (c : SolverConfig α) (rate? : Option α) (i : Nat)
    (before? : Option (Interval α)) (s : TubeSample α) (rest : List (TubeSample α))
    (ranges : List (Interval α)) (h : sweepForward c rate? i before? (s :: rest) = .ok ranges) :
    (reach rate? before? s.range).lo ≤ (reach rate? before? s.range).hi + c.slack ∧
    ∃ later, ranges = collapse (reach rate? before? s.range) :: later ∧
      sweepForward c rate? (i + 1) (some (collapse (reach rate? before? s.range))) rest =
        .ok later := by
  cases hclock : overdue? c i with
  | some elapsed => simp [sweepForward_cons_overdue c rate? i before? s rest elapsed hclock] at h
  | none =>
    rw [sweepForward_cons c rate? i before? s rest hclock] at h
    split at h
    · simp at h
    · refine ⟨not_lt.mp (by assumption), ?_⟩
      cases hrest : sweepForward c rate? (i + 1) (some (collapse (reach rate? before? s.range)))
        rest with
      | error stop => simp [hrest, Except.map] at h
      | ok later =>
        simp only [hrest, Except.map, Except.ok.injEq] at h
        exact ⟨later, h.symm, rfl⟩

/-! ## The whole sweep -/

theorem sweepForward_of_fits (c : SolverConfig α) (hclock : c.NeverOverdue) (hslack : 0 ≤ c.slack)
    (rate? : Option α) (samples : List (TubeSample α)) (xs : List α) (h : Fits rate? samples xs)
    (i : Nat) (before? : Option (Interval α))
    (hbefore : ∀ before ∈ before?, ∃ w ∈ before, (w :: xs).IsChain (StepsTo rate?)) :
    ∃ ranges, sweepForward c rate? i before? samples = .ok ranges ∧
      List.Forall₂ (fun x r => x ∈ r) xs ranges := by
  induction samples generalizing xs i before? with
  | nil =>
    obtain ⟨hinside, -⟩ := h
    cases hinside
    exact ⟨[], rfl, .nil⟩
  | cons s rest ih =>
    obtain ⟨hinside, hsteps⟩ := h
    obtain ⟨x, xs', hx, hrest, rfl⟩ := List.forall₂_cons_left_iff.mp hinside
    have hreach : x ∈ reach rate? before? s.range := by
      refine mem_reach rate? before? s.range x hx ?_
      intro before hb
      obtain ⟨w, hw, hchain⟩ := hbefore before hb
      exact ⟨w, hw, (List.isChain_cons_cons.mp hchain).1⟩
    have hproper := hreach.1.trans hreach.2
    have hkeep : collapse (reach rate? before? s.range) = reach rate? before? s.range := by
      rw [collapse_eq, min_eq_left hproper]
    obtain ⟨later, hlater, hmem⟩ := ih xs' ⟨hrest, hsteps.tail⟩ (i + 1)
      (some (reach rate? before? s.range)) (by rintro _ ⟨rfl⟩; exact ⟨x, hreach, hsteps⟩)
    refine ⟨reach rate? before? s.range :: later, ?_, .cons hreach hmem⟩
    rw [sweepForward_cons c rate? i before? s rest (hclock i), if_neg, hkeep, hlater]
    · rfl
    · exact not_lt.mpr (hproper.trans (le_add_of_nonneg_right hslack))

theorem sweepForward_narrows (c : SolverConfig α) (hslack : 0 ≤ c.slack) (rate? : Option α)
    (samples : List (TubeSample α)) (ranges : List (Interval α)) (i : Nat)
    (before? : Option (Interval α)) (h : sweepForward c rate? i before? samples = .ok ranges) :
    List.Forall₂ (Narrows c.slack) samples ranges ∧ (∀ r ∈ ranges, r.lo ≤ r.hi) ∧
      (before?.toList ++ ranges).IsChain (Linked c.slack rate?) := by
  induction samples generalizing i before? ranges with
  | nil =>
    simp only [sweepForward, Except.ok.injEq] at h
    subst h
    cases before? <;> simp
  | cons s rest ih =>
    obtain ⟨hproper, later, rfl, hlater⟩ := sweepForward_cons_eq_ok c rate? i before? s rest _ h
    obtain ⟨hnarrows, hlater, hlinked⟩ := ih later (i + 1) _ hlater
    refine ⟨.cons (narrows_collapse_reach c.slack hslack rate? before? s hproper) hnarrows, ?_, ?_⟩
    · exact List.forall_mem_cons.mpr ⟨by simp [collapse_eq], hlater⟩
    cases before? with
    | none => exact hlinked
    | some before =>
      exact .cons_cons (linked_collapse_reach c.slack hslack rate? before s.range hproper) hlinked

/-- If a sweep stops at a sample, it would have gone through without that sample, and it would
have stopped all the same without the ones after it. -/
theorem sweepForward_eq_infeasible (c : SolverConfig α) (rate? : Option α)
    (samples : List (TubeSample α)) (i j : Nat) (before? : Option (Interval α))
    (h : sweepForward c rate? i before? samples = .error (.infeasible j)) :
    ∃ k < samples.length, j = i + k ∧
      (∃ ranges, sweepForward c rate? i before? (samples.take k) = .ok ranges) ∧
      sweepForward c rate? i before? (samples.take (k + 1)) = .error (.infeasible j) := by
  induction samples generalizing i before? with
  | nil => simp [sweepForward] at h
  | cons s rest ih =>
    cases hclock : overdue? c i with
    | some elapsed => simp [sweepForward_cons_overdue c rate? i before? s rest elapsed hclock] at h
    | none =>
      rw [sweepForward_cons c rate? i before? s rest hclock] at h
      split at h
      · rename_i hempty
        simp only [Except.error.injEq, SolverAnswer.infeasible.injEq] at h
        subst h
        refine ⟨0, by simp, rfl, ⟨[], rfl⟩, ?_⟩
        rw [List.take_succ_cons, sweepForward_cons c rate? i before? s _ hclock, if_pos hempty]
      · rename_i hempty
        cases hrest : sweepForward c rate? (i + 1) (some (collapse (reach rate? before? s.range)))
          rest with
        | ok later => simp [hrest, Except.map] at h
        | error stop =>
          simp only [hrest, Except.map, Except.error.injEq] at h
          obtain ⟨k, hk, rfl, ⟨later, hlater⟩, hstop⟩ := ih (i + 1) _ (h ▸ hrest)
          refine ⟨k + 1, by simpa using hk, by omega,
            ⟨collapse (reach rate? before? s.range) :: later, ?_⟩, ?_⟩
          · rw [List.take_succ_cons, sweepForward_cons c rate? i before? s _ hclock, if_neg hempty,
              hlater]
            rfl
          · rw [List.take_succ_cons, sweepForward_cons c rate? i before? s _ hclock, if_neg hempty,
              hstop]
            rfl

theorem sweepForward_ends (c : SolverConfig α) (rate? : Option α) (samples : List (TubeSample α))
    (i : Nat) (before? : Option (Interval α)) :
    (∃ ranges, sweepForward c rate? i before? samples = .ok ranges) ∨
    (∃ j, sweepForward c rate? i before? samples = .error (.infeasible j)) ∨
    ∃ step elapsed, overdue? c step = some elapsed ∧
      sweepForward c rate? i before? samples = .error (.timedOut elapsed) := by
  induction samples generalizing i before? with
  | nil => exact .inl ⟨[], rfl⟩
  | cons s rest ih =>
    cases hclock : overdue? c i with
    | some elapsed =>
      have hstop := sweepForward_cons_overdue c rate? i before? s rest elapsed hclock
      exact .inr (.inr ⟨i, elapsed, hclock, hstop⟩)
    | none =>
      rw [sweepForward_cons c rate? i before? s rest hclock]
      split
      · exact .inr (.inl ⟨i, rfl⟩)
      · obtain ⟨ranges, h⟩ | ⟨j, h⟩ | ⟨step, elapsed, hover, h⟩ :=
          ih (i + 1) (some (collapse (reach rate? before? s.range)))
        · exact .inl ⟨_, by rw [h]; rfl⟩
        · exact .inr (.inl ⟨j, by rw [h]; rfl⟩)
        · exact .inr (.inr ⟨step, elapsed, hover, by rw [h]; rfl⟩)

end Chain

end BoundaryAtlas
