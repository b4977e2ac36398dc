import Mathlib.Algebra.Order.Ring.Abs
import Mathlib.Algebra.Order.Ring.Int
import Mathlib.Tactic.Linarith
import Mathlib.Tactic.Ring
import BoundaryAtlas.Grid.Words
import BoundaryAtlas.Proofs.Grid.Words

/-!
# Straight lines in words that wrap around

The products of a cross product may leave the signed words. The cross product itself is twice the
area of a triangle, which is at most the area of a rectangle around it. So it is smaller than
`2 ^ 64`, and of all multiples of `2 ^ 64` it can be zero only.
-/

namespace BoundaryAtlas

/-! ## The area of a triangle -/

namespace GridPoint

theorem abs_cross_swap (p q r : GridPoint) : |cross q p r| = |cross p q r| := by
  have hswap : cross q p r = -cross p q r := by
    simp only [cross]
    ring
  rw [hswap, abs_neg]

theorem abs_cross_rotate (p q r : GridPoint) : |cross q r p| = |cross p q r| := by
  have hrotate : cross q r p = cross p q r := by
    simp only [cross]
    ring
  rw [hrotate]

variable {numX numY : Nat} {p q r : GridPoint}

theorem abs_cross_le_of_ordered (hpq : p.col ≤ q.col) (hqr : q.col ≤ r.col) (hr : r.col ≤ numX)
    (hp : p.row ≤ numY) (hq : q.row ≤ numY) (hr' : r.row ≤ numY) :
    |cross p q r| ≤ numX * numY :=
  (abs_sub _ _).trans (Machine.abs_products_le hpq hqr hr hp hq hr')

theorem abs_cross_le (hp : p.col ≤ numX ∧ p.row ≤ numY) (hq : q.col ≤ numX ∧ q.row ≤ numY)
    (hr : r.col ≤ numX ∧ r.row ≤ numY) : |cross p q r| ≤ numX * numY := by
  -- the order of the points changes the sign only, so they may be taken from left to right
  wlog hpq : p.col ≤ q.col generalizing p q
  · rw [← abs_cross_swap]
    exact this hq hp (Nat.le_of_not_le hpq)
  rcases le_total q.col r.col with hqr | hrq
  · exact abs_cross_le_of_ordered hpq hqr hr.1 hp.2 hq.2 hr.2
  rcases le_total p.col r.col with hpr | hrp
  · rw [← abs_cross_rotate, ← abs_cross_rotate, ← abs_cross_swap]
    exact abs_cross_le_of_ordered hpr hrq hq.1 hp.2 hr.2 hq.2
  · rw [← abs_cross_rotate, ← abs_cross_rotate]
    exact abs_cross_le_of_ordered hrp hpq hq.1 hr.2 hp.2 hq.2

end GridPoint

/-! ## Signed words -/

namespace Words

theorem widen_eq (n : UInt32) : widen n = Int64.ofInt n.toNat := by
  rw [Int64.ofInt_eq_ofNat, ← UInt64.toInt64_ofNat', UInt64.ofNat_uInt32ToNat, widen]

/-- However often the steps leave the signed words, the last result is the word of the exact one. -/
theorem wrappedCross_eq (p q r : Node) :
    wrappedCross p q r = Int64.ofInt (GridPoint.cross p.toPoint q.toPoint r.toPoint) := by
  simp only [wrappedCross, widen_eq, GridPoint.cross, Node.toPoint, Int64.ofInt_sub,
    Int64.ofInt_mul]

theorem ofInt_eq_zero_iff {z : Int} (h : |z| < 2 ^ 64) : Int64.ofInt z = 0 ↔ z = 0 := by
  rw [Int64.ofInt_eq_iff_bmod_eq_toInt, Int64.toInt_zero, ← Int.dvd_iff_bmod_eq_zero]
  constructor
  · intro hdvd
    exact Int.eq_zero_of_abs_lt_dvd hdvd h
  · rintro rfl
    exact dvd_zero _

theorem abs_cross_toPoint_lt (p q r : Node) :
    |GridPoint.cross p.toPoint q.toPoint r.toPoint| < 2 ^ 64 := by
  have hle (n : UInt32) : n.toNat ≤ 2 ^ 32 - 1 := Nat.le_pred_of_lt n.toNat_lt
  have harea : |GridPoint.cross p.toPoint q.toPoint r.toPoint| ≤
      ((2 ^ 32 - 1 : Nat) : Int) * ((2 ^ 32 - 1 : Nat) : Int) :=
    GridPoint.abs_cross_le ⟨hle p.col, hle p.row⟩ ⟨hle q.col, hle q.row⟩ ⟨hle r.col, hle r.row⟩
  exact harea.trans_lt (by decide)

/-- **Straight lines.** Words that wrap around tell exactly the triples of nodes with cross product
zero, also those triples for which a step leaves the signed words, and there are such triples. -/
theorem wrappedCollinear_iff :
    (∀ p q r : Node, wrappedCollinear p q r = true ↔
      GridPoint.cross p.toPoint q.toPoint r.toPoint = 0) ∧
    ∃ p q r : Node, Machine.words.cross p.toPoint q.toPoint r.toPoint = none := by
  refine ⟨fun p q r => ?_, ⟨0, 0⟩, ⟨4294967295, 0⟩, ⟨4294967295, 4294967295⟩, by decide⟩
  rw [wrappedCollinear, beq_iff_eq, wrappedCross_eq, ofInt_eq_zero_iff (abs_cross_toPoint_lt p q r)]

end Words

end BoundaryAtlas
