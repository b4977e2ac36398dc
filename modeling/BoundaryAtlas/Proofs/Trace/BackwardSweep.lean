import Mathlib.Tactic.Ring
import BoundaryAtlas.Proofs.Trace.ForwardSweep

/-!
# The sweep backward

The states that the sweep chooses keep the step bound and the upper ends exactly. Where the sweep
forward used up slack, a state may lie below the lower end of its interval, by one slack for each
sample after it.
-/

namespace BoundaryAtlas

variable {α : Type} [ExactScalar α]

namespace Chain

/-- States at most at the upper ends, and at the lower ends up to one slack for each state that
follows. -/
inductive Settles (slack : α) : List (Interval α) → List α → Prop
  | nil : Settles slack [] []
  | cons {r : Interval α} {rs : List (Interval α)} {y : α} {ys : List α}
      (above : r.lo ≤ y + ys.length * slack) (below : y ≤ r.hi) (later : Settles slack rs ys) :
      Settles slack (r :: rs) (y :: ys)

theorem Settles.length_eq {slack : α} {rs : List (Interval α)} {ys : List α}
    (h : Settles slack rs ys) : ys.length = rs.length := by
  induction h with
  | nil => rfl
  | cons _ _ _ ih => simp [ih]

/-! ## One step of the sweep -/

theorem nearest_eq (target : α) (r : Interval α) :
    nearest target r = min (max target r.lo) r.hi := by
  unfold nearest
  rw [ExactScalar.smaller_eq, ExactScalar.larger_eq]

theorem nearest_mem (target : α) (r : Interval α) (h : r.lo ≤ r.hi) : nearest target r ∈ r := by
  rw [nearest_eq]
  exact ⟨le_min (le_max_right _ _) h, min_le_right _ _⟩

theorem nearest_within (slack : α) (hslack : 0 ≤ slack) (rate? : Option α)
    (hrate : ∀ rate ∈ rate?, 0 ≤ rate) (target : α) (r r' : Interval α) (hr : r.lo ≤ r.hi)
    (hlinked : Linked slack rate? r r') (y loss : α) (hloss : 0 ≤ loss)
    (habove : r'.lo ≤ y + loss) (hbelow : y ≤ r'.hi) :
    r.lo ≤ nearest target (within rate? ⟨y, y⟩ r) + (loss + slack) ∧
      nearest target (within rate? ⟨y, y⟩ r) ≤ r.hi ∧
      StepsTo rate? (nearest target (within rate? ⟨y, y⟩ r)) y := by
  cases rate? with
  | none =>
    obtain ⟨hlo, hhi⟩ := nearest_mem target r hr
    refine ⟨?_, hhi, by simp [StepsTo]⟩
    change r.lo ≤ nearest target r + (loss + slack)
    linarith
  | some rate =>
    obtain ⟨hdown, hup⟩ := hlinked rate rfl
    have hrate := hrate rate rfl
    have hx : nearest target (within (some rate) ⟨y, y⟩ r) =
        min (max target (max r.lo (y - rate))) (min r.hi (y + rate)) := by
      simp only [nearest_eq, within, ExactScalar.larger_eq, ExactScalar.smaller_eq]
    rw [hx]
    refine ⟨?_, (min_le_right _ _).trans (min_le_left _ _), ?_⟩
    · rw [← sub_le_iff_le_add]
      refine le_min (le_max_of_le_right (le_max_of_le_left ?_)) (le_min ?_ ?_) <;> linarith
    · rintro _ ⟨rfl⟩
      have hback : y - rate ≤ min (max target (max r.lo (y - rate))) (min r.hi (y + rate)) := by
        refine le_min (le_max_of_le_right (le_max_right _ _)) (le_min ?_ ?_) <;> linarith
      have hforth : min (max target (max r.lo (y - rate))) (min r.hi (y + rate)) ≤ y + rate :=
        (min_le_right _ _).trans (min_le_right _ _)
      rw [abs_le]
      constructor <;> linarith

theorem sweepBackward_cons_eq_ok (c : SolverConfig α) (rate? : Option α) (total i : Nat)
    (target : α) (range : Interval α) (rest : List (α × Interval α)) (xs : List α)
    (h : sweepBackward c rate? total i ((target, range) :: rest) = .ok xs) :
    ∃ later, sweepBackward c rate? total (i + 1) rest = .ok later ∧
      xs = nearest target (reach rate? (later.head?.map fun y => ⟨y, y⟩) range) :: later := by
  unfold sweepBackward at h
  cases hrest : sweepBackward c rate? total (i + 1) rest with
  | error stop => simp [hrest] at h
  | ok later =>
    refine ⟨later, rfl, ?_⟩
    cases later with
    | nil =>
      simp only [hrest, Except.ok.injEq] at h
      exact h.symm
    | cons y ys =>
      simp only [hrest] at h
      split at h
      · simp at h
      · simp only [Except.ok.injEq] at h
        exact h.symm

/-! ## The whole sweep -/

theorem sweepBackward_settles (c : SolverConfig α) (hslack : 0 ≤ c.slack) (rate? : Option α)
    (hrate : ∀ rate ∈ rate?, 0 ≤ rate) (total i : Nat) (choices : List (α × Interval α))
    (xs : List α) (hproper : ∀ r ∈ choices.map Prod.snd, r.lo ≤ r.hi)
    (hlinked : (choices.map Prod.snd).IsChain (Linked c.slack rate?))
    (h : sweepBackward c rate? total i choices = .ok xs) :
    Settles c.slack (choices.map Prod.snd) xs ∧ xs.IsChain (StepsTo rate?) := by
  induction choices generalizing i xs with
  | nil =>
    simp only [sweepBackward, Except.ok.injEq] at h
    subst h
    exact ⟨.nil, .nil⟩
  | cons choice rest ih =>
    obtain ⟨target, r⟩ := choice
    obtain ⟨later, hlater, rfl⟩ := sweepBackward_cons_eq_ok c rate? total i target r rest xs h
    simp only [List.map_cons, List.forall_mem_cons] at hproper hlinked ⊢
    obtain ⟨hr, hproper⟩ := hproper
    obtain ⟨hsettles, hsteps⟩ := ih (i + 1) later hproper hlinked.tail hlater
    clear ih hlater h
    generalize rest.map Prod.snd = rs at hsettles hlinked ⊢
    cases hsettles with
    | nil =>
      obtain ⟨hlo, hhi⟩ := nearest_mem target r hr
      exact ⟨.cons (by simpa [reach] using hlo) hhi .nil, .singleton _⟩
    | @cons r' rs y ys habove hbelow hlast =>
      have hloss : 0 ≤ (ys.length : α) * c.slack := mul_nonneg (Nat.cast_nonneg _) hslack
      obtain ⟨hlo, hhi, hstep⟩ := nearest_within c.slack hslack rate? hrate target r r' hr
        (List.isChain_cons_cons.mp hlinked).1 y _ hloss habove hbelow
      refine ⟨.cons ?_ hhi (.cons habove hbelow hlast), .cons_cons hstep hsteps⟩
      rw [List.length_cons, Nat.cast_succ, add_one_mul]
      exact hlo

theorem sweepBackward_ends (c : SolverConfig α) (rate? : Option α) (total i : Nat)
    (choices : List (α × Interval α)) :
    (∃ xs, sweepBackward c rate? total i choices = .ok xs) ∨
    ∃ step elapsed, overdue? c step = some elapsed ∧
      sweepBackward c rate? total i choices = .error (.timedOut elapsed) := by
  induction choices generalizing i with
  | nil => exact .inl ⟨[], rfl⟩
  | cons choice rest ih =>
    unfold sweepBackward
    obtain ⟨later, h⟩ | ⟨step, elapsed, hover, h⟩ := ih (i + 1)
    · cases later with
      | nil => exact .inl ⟨_, by rw [h]⟩
      | cons y ys =>
        cases hclock : overdue? c (total + i) with
        | none => exact .inl ⟨_, by rw [h]⟩
        | some elapsed => exact .inr ⟨_, elapsed, hclock, by rw [h]⟩
    · exact .inr ⟨step, elapsed, hover, by rw [h]⟩

end Chain

end BoundaryAtlas
