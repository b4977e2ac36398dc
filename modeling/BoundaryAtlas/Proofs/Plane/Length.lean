import Mathlib.Analysis.Complex.Norm
import BoundaryAtlas.Proofs.Boundary.HalfTurn

/-!
# Lengths in the plane

Facts of Euclidean length with real coordinates.
-/

namespace BoundaryAtlas.Point

theorem sub_mk {α : Type} [Scalar α] (x y z w : α) :
    (⟨x, y⟩ - ⟨z, w⟩ : Point α) = ⟨x - z, y - w⟩ := rfl

theorem norm_eq_sqrt (u : Point ℝ) : u.norm = √(u.x * u.x + u.y * u.y) := rfl

theorem norm_eq_norm (u : Point ℝ) : u.norm = ‖(⟨u.x, u.y⟩ : ℂ)‖ := rfl

theorem mul_self_add_mul_self_nonneg (x y : ℝ) : 0 ≤ x * x + y * y :=
  add_nonneg (mul_self_nonneg x) (mul_self_nonneg y)

theorem norm_nonneg (u : Point ℝ) : 0 ≤ u.norm := Real.sqrt_nonneg _

theorem norm_mul_norm (u : Point ℝ) : u.norm * u.norm = u.x * u.x + u.y * u.y :=
  Real.mul_self_sqrt (mul_self_add_mul_self_nonneg u.x u.y)

theorem norm_pos_iff (u : Point ℝ) : 0 < u.norm ↔ ¬ (u.x = 0 ∧ u.y = 0) := by
  rw [norm_eq_sqrt, Real.sqrt_pos, ← not_le, ← mul_self_add_mul_self_eq_zero]
  have hnonneg := mul_self_add_mul_self_nonneg u.x u.y
  exact not_congr ⟨fun h => le_antisymm h hnonneg, le_of_eq⟩

theorem norm_sub_pos_iff (p q : Point ℝ) : 0 < (q - p).norm ↔ p ≠ q := by
  rw [norm_pos_iff]
  change ¬ (q.x - p.x = 0 ∧ q.y - p.y = 0) ↔ _
  rw [sub_eq_zero, sub_eq_zero]
  refine not_congr ⟨fun ⟨hx, hy⟩ => ext hx.symm hy.symm, ?_⟩
  rintro rfl
  exact ⟨rfl, rfl⟩

theorem norm_sub_self (p : Point ℝ) : (p - p).norm = 0 := by
  have hpos := not_congr (norm_sub_pos_iff p p)
  exact le_antisymm (not_lt.mp (hpos.mpr (not_not.mpr rfl))) (norm_nonneg _)

theorem norm_sub_le (p q r : Point ℝ) : (p - r).norm ≤ (p - q).norm + (q - r).norm := by
  simp only [norm_eq_norm]
  exact norm_sub_le_norm_sub_add_norm_sub (⟨p.x, p.y⟩ : ℂ) ⟨q.x, q.y⟩ ⟨r.x, r.y⟩

theorem norm_le_iff (u : Point ℝ) {d : ℝ} (hd : 0 ≤ d) :
    u.norm ≤ d ↔ u.x * u.x + u.y * u.y ≤ d * d := by
  rw [norm_eq_sqrt, Real.sqrt_le_iff, pow_two, and_iff_right hd]

theorem abs_y_le_norm (u : Point ℝ) : |u.y| ≤ u.norm := by
  rw [norm_eq_sqrt, ← Real.sqrt_mul_self_eq_abs]
  exact Real.sqrt_le_sqrt (le_add_of_nonneg_left (mul_self_nonneg u.x))

theorem norm_of_vertical (u : Point ℝ) (h : u.x = 0) : u.norm = |u.y| := by
  rw [norm_eq_sqrt, h, mul_zero, zero_add, Real.sqrt_mul_self_eq_abs]

theorem abs_cross_le (u v : Point ℝ) : |cross u v| ≤ u.norm * v.norm := by
  apply abs_le_of_sq_le_sq _ (mul_nonneg u.norm_nonneg v.norm_nonneg)
  have hdot := mul_self_nonneg (u.x * v.x + u.y * v.y)
  have hu := u.norm_mul_norm
  have hv := v.norm_mul_norm
  change (u.x * v.y - u.y * v.x) ^ 2 ≤ (u.norm * v.norm) ^ 2
  calc (u.x * v.y - u.y * v.x) ^ 2 ≤ (u.x * u.x + u.y * u.y) * (v.x * v.x + v.y * v.y) := by
        linarith
    _ = (u.norm * v.norm) ^ 2 := by rw [← hu, ← hv]; ring

end BoundaryAtlas.Point
