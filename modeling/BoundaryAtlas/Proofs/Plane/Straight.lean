import Mathlib.Tactic.FieldSimp
import Mathlib.Tactic.Linarith
import Mathlib.Tactic.LinearCombination
import BoundaryAtlas.Proofs.Exact
import BoundaryAtlas.Boundary.Value

/-!
# Three points on a line

If a point lies between two others on one line, then the segments beside it and the one past it
have the same slope.
-/

namespace BoundaryAtlas

theorem Point.ext {α : Type} {p q : Point α} (hx : p.x = q.x) (hy : p.y = q.y) : p = q := by
  cases p; cases q; simp_all

variable {α : Type} [ExactScalar α]

namespace Point

/-- The legs from `p` to `q` and from `q` to `r` lie on one line. -/
def Straight (p q r : Point α) : Prop := cross (q - p) (r - q) = 0

theorem straight_iff (p q r : Point α) :
    Straight p q r ↔ (q.x - p.x) * (r.y - q.y) = (q.y - p.y) * (r.x - q.x) := sub_eq_zero

def steepness (p q : Point α) : α := (q.y - p.y) / (q.x - p.x)

theorem eq_of_straight_left (p q r : Point α) (h : Straight p q r) (hpq : p.x = q.x)
    (hqr : q.x < r.x) : p = q := by
  rw [straight_iff, hpq, sub_self, zero_mul, eq_comm, mul_eq_zero] at h
  rcases h with h | h
  · exact ext hpq (sub_eq_zero.mp h).symm
  · exact absurd (sub_eq_zero.mp h) hqr.ne'

theorem eq_of_straight_right (p q r : Point α) (h : Straight p q r) (hpq : p.x < q.x)
    (hqr : q.x = r.x) : q = r := by
  rw [straight_iff, hqr, sub_self, mul_zero, mul_eq_zero] at h
  rcases h with h | h
  · exact absurd (sub_eq_zero.mp h) (hqr ▸ hpq).ne'
  · exact ext hqr (sub_eq_zero.mp h).symm

theorem steepness_mul (p q : Point α) (h : p.x < q.x) : steepness p q * (q.x - p.x) = q.y - p.y :=
  div_mul_cancel₀ _ (sub_pos.mpr h).ne'

theorem steepness_eq_iff (p q : Point α) (h : p.x < q.x) (m : α) :
    steepness p q = m ↔ q.y - p.y = m * (q.x - p.x) :=
  div_eq_iff (sub_pos.mpr h).ne'

theorem steepness_eq_steepness (p q r : Point α) (h : Straight p q r) (hpq : p.x < q.x)
    (hqr : q.x < r.x) : steepness q r = steepness p q := by
  rw [straight_iff] at h
  rw [steepness, steepness, div_eq_div_iff (sub_pos.mpr hqr).ne' (sub_pos.mpr hpq).ne']
  linarith

theorem steepness_left (p q r : Point α) (h : Straight p q r) (hpq : p.x < q.x)
    (hqr : q.x ≤ r.x) : steepness p q = steepness p r := by
  rcases hqr.eq_or_lt with hqr | hqr
  · rw [eq_of_straight_right p q r h hpq hqr]
  · have hm := steepness_eq_steepness p q r h hpq hqr
    rw [eq_comm, steepness_eq_iff p r (hpq.trans hqr)]
    have hp := steepness_mul p q hpq
    have hq := steepness_mul q r hqr
    rw [hm] at hq
    linear_combination - hp - hq

theorem steepness_right (p q r : Point α) (h : Straight p q r) (hpq : p.x ≤ q.x)
    (hqr : q.x < r.x) : steepness q r = steepness p r := by
  rcases hpq.eq_or_lt with hpq | hpq
  · rw [eq_of_straight_left p q r h hpq hqr]
  · rw [steepness_eq_steepness p q r h hpq hqr, steepness_left p q r h hpq hqr.le]

end Point

namespace Boundary

open Point

theorem onLine_eq (p q anchor : Point α) (t : α) :
    onLine p q anchor t = anchor.y + steepness p q * (t - anchor.x) := rfl

theorem interpolate_eq (p q : Point α) (t : α) : interpolate p q t = onLine p q p t := by
  simp only [interpolate, onLine]
  ring

theorem onLine_right (p q : Point α) (h : p.x < q.x) : onLine p q p q.x = q.y := by
  rw [onLine_eq, steepness_mul p q h, add_sub_cancel]

/-- The line on which a segment lies. -/
def line (s : Point α × Point α) : α → α := onLine s.1 s.2 s.1

theorem line_left (p q r : Point α) (h : Straight p q r) (hpq : p.x < q.x) (hqr : q.x ≤ r.x) :
    line (p, q) = line (p, r) := by
  funext t
  simp only [line, onLine_eq, steepness_left p q r h hpq hqr]

theorem line_right (p q r : Point α) (h : Straight p q r) (hpq : p.x ≤ q.x) (hqr : q.x < r.x) :
    line (q, r) = line (p, r) := by
  rcases hpq.eq_or_lt with hpq | hpq
  · rw [eq_of_straight_left p q r h hpq hqr]
  · funext t
    simp only [line, onLine_eq, steepness_right p q r h hpq.le hqr]
    have hp := steepness_mul p q hpq
    rw [steepness_left p q r h hpq hqr.le] at hp
    linear_combination - hp

end Boundary

end BoundaryAtlas
