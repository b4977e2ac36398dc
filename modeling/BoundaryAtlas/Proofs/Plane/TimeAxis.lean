import Mathlib.Data.List.Chain
import Mathlib.Tactic.Ring
import BoundaryAtlas.Proofs.Exact

/-!
# Maps that keep the time axis

Where the new `x` is a multiple of the old one, a polyline that runs strictly to one side runs
strictly to one side again, by the sign of the factor. Any other map puts two points of different
columns into one column, and so it breaks the polyline through these two.
-/

namespace BoundaryAtlas

variable {α : Type} [ExactScalar α]

namespace Point

/-- The polyline runs strictly from left to right. -/
def RunsRight (l : List (Point α)) : Prop := l.IsChain fun p q => p.x < q.x

/-- The polyline runs strictly from right to left. -/
def RunsLeft (l : List (Point α)) : Prop := l.IsChain fun p q => q.x < p.x

end Point

namespace AffineMap

open Point

variable (f : AffineMap α)

theorem keepsTimeAxis_eq_true_iff : f.keepsTimeAxis = true ↔ f.m01 = 0 ∧ f.m00 ≠ 0 := by
  simp [keepsTimeAxis]

theorem apply_x_sub (p q : Point α) :
    (f.apply q).x - (f.apply p).x = f.m00 * (q.x - p.x) + f.m01 * (q.y - p.y) := by
  simp only [apply]
  ring

/-! ## Maps that do not mix `y` into `x` -/

theorem apply_x_sub_of_not_mixed (hmix : f.m01 = 0) (p q : Point α) :
    (f.apply q).x - (f.apply p).x = f.m00 * (q.x - p.x) := by
  rw [apply_x_sub, hmix, zero_mul, add_zero]

theorem runsRight_map (hmix : f.m01 = 0) (hpos : 0 < f.m00) {l : List (Point α)}
    (hl : RunsRight l) : RunsRight (l.map f.apply) := by
  refine List.isChain_map_of_isChain f.apply (fun p q hpq => ?_) hl
  rw [← sub_pos, f.apply_x_sub_of_not_mixed hmix]
  exact mul_pos hpos (sub_pos.mpr hpq)

theorem runsLeft_map (hmix : f.m01 = 0) (hneg : f.m00 < 0) {l : List (Point α)}
    (hl : RunsRight l) : RunsLeft (l.map f.apply) := by
  refine List.isChain_map_of_isChain f.apply (fun p q hpq => ?_) hl
  rw [← sub_neg, f.apply_x_sub_of_not_mixed hmix]
  exact mul_neg_of_neg_of_pos hneg (sub_pos.mpr hpq)

/-! ## Other maps -/

theorem exists_flat_direction (h : f.keepsTimeAxis = false) : ∃ y, f.m00 + f.m01 * y = 0 := by
  by_cases hmix : f.m01 = 0
  · have hzero : f.m00 = 0 := by
      by_contra hne
      rw [f.keepsTimeAxis_eq_true_iff.mpr ⟨hmix, hne⟩] at h
      cases h
    exact ⟨0, by rw [hzero, mul_zero, add_zero]⟩
  · exact ⟨-f.m00 / f.m01, by rw [mul_div_cancel₀ _ hmix, add_neg_cancel]⟩

theorem exists_collapsed (h : f.keepsTimeAxis = false) :
    ∃ p q : Point α, p.x < q.x ∧ (f.apply p).x = (f.apply q).x := by
  obtain ⟨y, hy⟩ := f.exists_flat_direction h
  refine ⟨⟨0, 0⟩, ⟨1, y⟩, zero_lt_one, ?_⟩
  rw [eq_comm, ← sub_eq_zero, apply_x_sub, sub_zero, sub_zero, mul_one, hy]

/-- **The time axis.** A map keeps the time axis exactly if the image of each polyline that runs
strictly from left to right runs strictly to one side. -/
theorem keepsTimeAxis_iff (f : AffineMap α) :
    f.keepsTimeAxis = true ↔
      ∀ l : List (Point α), RunsRight l →
        RunsRight (l.map f.apply) ∨ RunsLeft (l.map f.apply) := by
  constructor
  · intro h l hl
    obtain ⟨hmix, hne⟩ := f.keepsTimeAxis_eq_true_iff.mp h
    -- the sign is the same for all neighbours
    rcases lt_or_gt_of_ne hne with hneg | hpos
    · exact .inr (f.runsLeft_map hmix hneg hl)
    · exact .inl (f.runsRight_map hmix hpos hl)
  · intro h
    by_contra hkeeps
    obtain ⟨p, q, hpq, heq⟩ := f.exists_collapsed (Bool.eq_false_iff.mpr hkeeps)
    have hruns : RunsRight [p, q] := List.isChain_pair.mpr hpq
    rcases h [p, q] hruns with hright | hleft
    · exact (List.isChain_pair.mp hright).ne heq
    · exact (List.isChain_pair.mp hleft).ne' heq

end AffineMap

end BoundaryAtlas
