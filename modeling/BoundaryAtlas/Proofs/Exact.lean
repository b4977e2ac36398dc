import Mathlib.Algebra.Order.Field.Basic
import Mathlib.Algebra.Order.Field.Rat
import Mathlib.Data.Real.Basic
import Mathlib.Tactic.Ring
import BoundaryAtlas.Point

/-!
# Exact numbers

Exact arithmetic is arithmetic in an ordered field. Every number is finite, and none is infinite.
-/

namespace BoundaryAtlas

/-- Numbers of an ordered field, with the decimal literals read as fractions. -/
class ExactScalar (α : Type) extends Field α, LinearOrder α, IsStrictOrderedRing α, Scalar α where
  finite : ∀ a : α, isFinite a = true
  natural : ∀ n : Nat, ofNat n = n
  decimal : ∀ digits places : Nat, ofDecimal digits places = digits / 10 ^ places
  bounded : infinity? = none
  beq_decides : ∀ a b : α, (a == b) = decide (a = b)

namespace ExactScalar

/-- The exact numbers of an ordered field. -/
@[reducible] def ofField (α : Type) [Field α] [LinearOrder α] [IsStrictOrderedRing α] :
    ExactScalar α where
  beq a b := decide (a = b)
  decLt := inferInstance
  decLe := inferInstance
  isFinite _ := true
  ofNat n := n
  ofDecimal digits places := digits / 10 ^ places
  infinity? := none
  finite _ := rfl
  natural _ := rfl
  decimal _ _ := rfl
  bounded := rfl
  beq_decides _ _ := rfl

instance : ExactScalar ℚ := ofField ℚ

noncomputable instance : ExactScalar ℝ := ofField ℝ

variable {α : Type} [ExactScalar α]

@[simp] theorem isFinite_eq (a : α) : Scalar.isFinite a = true := finite a

@[simp] theorem ofNat_eq (n : Nat) : (Scalar.ofNat n : α) = n := natural n

@[simp] theorem ofDecimal_eq (digits places : Nat) :
    (Scalar.ofDecimal digits places : α) = digits / 10 ^ places := decimal digits places

@[simp] theorem infinity?_eq : (Scalar.infinity? : Option α) = none := bounded

@[simp] theorem beq_eq (a b : α) : (a == b) = decide (a = b) := beq_decides a b

@[simp] theorem isFinite_point (p : Point α) : p.isFinite = true := by simp [Point.isFinite]

@[simp] theorem larger_eq (a b : α) : Scalar.larger a b = max a b := by
  unfold Scalar.larger
  split
  · exact (max_eq_right (le_of_lt (by assumption))).symm
  · simp only [beq_eq, decide_true, if_true]
    exact (max_eq_left (le_of_not_gt (by assumption))).symm

@[simp] theorem smaller_eq (a b : α) : Scalar.smaller a b = min a b := by
  unfold Scalar.smaller
  split
  · exact (min_eq_right (le_of_lt (by assumption))).symm
  · simp only [beq_eq, decide_true, if_true]
    exact (min_eq_left (le_of_not_gt (by assumption))).symm

@[simp] theorem clamp_eq (t lo hi : α) : Scalar.clamp t lo hi = min (max t lo) hi := by
  have hlo : (if t < lo then lo else t) = max t lo := by
    split
    · exact (max_eq_right (le_of_lt (by assumption))).symm
    · exact (max_eq_left (le_of_not_gt (by assumption))).symm
  simp only [Scalar.clamp, hlo]
  split
  · exact (min_eq_right (le_of_lt (by assumption))).symm
  · exact (min_eq_left (le_of_not_gt (by assumption))).symm

@[simp] theorem abs_eq (a : α) : Scalar.abs a = |a| := by
  unfold Scalar.abs
  rw [ofNat_eq, Nat.cast_zero]
  split
  · exact (abs_of_neg (by assumption)).symm
  · exact (abs_of_nonneg (le_of_not_gt (by assumption))).symm

end ExactScalar

end BoundaryAtlas
