import Mathlib.Data.Int.Order.Basic
import Mathlib.Data.Prod.Lex
import BoundaryAtlas.Proofs.Exact

/-!
# Comparison

Of two numbers one is at most the other. What is not a number differs from itself and is on neither
side of anything, so that these laws hold for exact numbers and for floating point.
-/

namespace BoundaryAtlas

namespace Scalar

variable {α : Type} [Scalar α]

/-- A value that equals itself. -/
def IsNumber (a : α) : Prop := (a == a) = true

/-- The numbers of the type are ordered. -/
class Comparable (α : Type) [Scalar α] : Prop where
  trans {a b c : α} : a ≤ b → b ≤ c → a ≤ c
  isNumber_left {a b : α} : a ≤ b → IsNumber a
  le_of_lt {a b : α} : a < b → a ≤ b
  le_of_not_lt {a b : α} : IsNumber a → IsNumber b → ¬ a < b → b ≤ a
  negInfinity_le {bottom : α} : bottom ∈ (negInfinity? : Option α) → ∀ a : α, IsNumber a →
    bottom ≤ a

variable {a b c : α}

theorem isNumber_larger (ha : IsNumber a) (hb : IsNumber b) : IsNumber (larger a b) := by
  unfold larger
  split
  · exact hb
  · rwa [if_pos (by exact ha)]

theorem le_larger_iff [Comparable α] (ha : IsNumber a) (hb : IsNumber b) :
    c ≤ larger a b ↔ c ≤ a ∨ c ≤ b := by
  unfold larger
  split
  · rename_i h
    constructor
    · exact Or.inr
    · rintro (hc | hc)
      · exact Comparable.trans hc (Comparable.le_of_lt h)
      · exact hc
  · rename_i h
    rw [if_pos (by exact ha)]
    constructor
    · exact Or.inl
    · rintro (hc | hc)
      · exact hc
      · exact Comparable.trans hc (Comparable.le_of_not_lt ha hb h)

end Scalar

instance {α : Type} [ExactScalar α] : Scalar.Comparable α where
  trans := le_trans
  isNumber_left _ := by simp [Scalar.IsNumber]
  le_of_lt := le_of_lt
  le_of_not_lt _ _ := le_of_not_gt
  negInfinity_le h := by simp [Scalar.negInfinity?] at h

/-! ## Floating point -/

namespace Binary

open Float.Model (UnpackedFloat)

/-- The place of a number among the others: by sign, then by exponent, then by mantissa. -/
def rank : UnpackedFloat → ℤ ×ₗ ℤ ×ₗ ℤ
  | .infinity .positive => toLex (2, toLex (0, 0))
  | .finite .positive m e _ => toLex (1, toLex (e, (m : ℤ)))
  | .zero _ => toLex (0, toLex (0, 0))
  | .finite .negative m e _ => toLex (-1, toLex (-e, -(m : ℤ)))
  | .infinity .negative => toLex (-2, toLex (0, 0))
  | .notANumber => toLex (0, toLex (0, 0))

theorem compare_toLex (s e e' m m' : ℤ) :
    compare (toLex (s, toLex (e, m))) (toLex (s, toLex (e', m'))) =
      (compare e e').then (compare m m') := by
  simp [Prod.Lex.compare_def, compareLex, compareOn]

theorem compare_neg (a b : ℤ) : compare (-a) (-b) = (compare a b).swap := by
  rcases lt_trichotomy a b with h | rfl | h
  · rw [compare_lt_iff_lt.mpr h, Ordering.swap_lt, compare_gt_iff_gt]
    exact neg_lt_neg h
  · simp
  · rw [compare_gt_iff_gt.mpr h, Ordering.swap_gt, compare_lt_iff_lt]
    exact neg_lt_neg h

theorem compare_natCast (m m' : ℕ) : compare (m : ℤ) (m' : ℤ) = compare m m' := by
  simp only [compare, compareOfLessAndEq, Nat.cast_lt, Nat.cast_inj]

theorem compare_rank (a b : UnpackedFloat) (ha : a ≠ .notANumber) (hb : b ≠ .notANumber) :
    a.compare b = some (compare (rank a) (rank b)) := by
  cases a with
  | notANumber => contradiction
  | infinity s =>
    cases b with
    | notANumber => contradiction
    | infinity t => cases s <;> cases t <;> rfl
    | zero t => cases s <;> rfl
    | finite t m' e' h' => cases s <;> cases t <;> rfl
  | zero s =>
    cases b with
    | notANumber => contradiction
    | infinity t => cases t <;> rfl
    | zero t => rfl
    | finite t m' e' h' => cases t <;> rfl
  | finite s m e h =>
    cases b with
    | notANumber => contradiction
    | infinity t => cases s <;> cases t <;> rfl
    | zero t => cases s <;> rfl
    | finite t m' e' h' =>
      cases s <;> cases t
      · change some ((compare e e').then (compare m m')).swap =
          some (compare (toLex (-1, toLex (-e, -(m : ℤ)))) (toLex (-1, toLex (-e', -(m' : ℤ)))))
        rw [compare_toLex, compare_neg, compare_neg, compare_natCast, Ordering.swap_then]
      · rfl
      · rfl
      · change some ((compare e e').then (compare m m')) =
          some (compare (toLex (1, toLex (e, (m : ℤ)))) (toLex (1, toLex (e', (m' : ℤ)))))
        rw [compare_toLex, compare_natCast]

theorem isNumber_iff (a : Float) :
    Scalar.IsNumber a ↔ a.toModel.unpack ≠ .notANumber := by
  change (a.toModel.unpack.compare a.toModel.unpack == some .eq) = true ↔ _
  by_cases h : a.toModel.unpack = .notANumber
  · rw [h]
    exact iff_of_false Bool.false_ne_true (not_not_intro rfl)
  · simp [compare_rank _ _ h h, h]

theorem compare_eq_some_iff (a b : UnpackedFloat) (o : Ordering) :
    a.compare b = some o ↔
      a ≠ .notANumber ∧ b ≠ .notANumber ∧ compare (rank a) (rank b) = o := by
  by_cases ha : a = .notANumber
  · have hnone : UnpackedFloat.compare .notANumber b = none := rfl
    simp [ha, hnone]
  · by_cases hb : b = .notANumber
    · have hnone : a.compare .notANumber = none := by cases a <;> rfl
      simp [hb, hnone]
    · simp [compare_rank a b ha hb, ha, hb]

theorem le_iff (a b : Float) :
    a ≤ b ↔ Scalar.IsNumber a ∧ Scalar.IsNumber b ∧
      rank a.toModel.unpack ≤ rank b.toModel.unpack := by
  change decide (a.toModel.unpack.le b.toModel.unpack = true) = true ↔ _
  rw [decide_eq_true_eq, isNumber_iff, isNumber_iff, ← compare_le_iff_le]
  simp [UnpackedFloat.le, Option.any_eq_true, compare_eq_some_iff, Ordering.ne_gt_iff_isLE,
    and_assoc]

theorem lt_iff (a b : Float) :
    a < b ↔ Scalar.IsNumber a ∧ Scalar.IsNumber b ∧
      rank a.toModel.unpack < rank b.toModel.unpack := by
  change decide (a.toModel.unpack.lt b.toModel.unpack = true) = true ↔ _
  rw [decide_eq_true_eq, isNumber_iff, isNumber_iff, ← compare_lt_iff_lt, ← compare_eq_some_iff]
  exact beq_iff_eq

theorem rank_negative_infinity_le (a : UnpackedFloat) : rank (.infinity .negative) ≤ rank a := by
  cases a with
  | infinity s => cases s <;> decide
  | finite s m e h =>
    apply Prod.Lex.toLex_le_toLex.mpr
    cases s with
    | positive => exact .inl (show (-2 : ℤ) < 1 by decide)
    | negative => exact .inl (show (-2 : ℤ) < -1 by decide)
  | zero s => cases s <;> decide
  | notANumber => decide

end Binary

instance : Scalar.Comparable Float where
  trans hab hbc := by
    rw [Binary.le_iff] at *
    exact ⟨hab.1, hbc.2.1, hab.2.2.trans hbc.2.2⟩
  isNumber_left h := ((Binary.le_iff _ _).mp h).1
  le_of_lt h := by
    rw [Binary.lt_iff] at h
    rw [Binary.le_iff]
    exact ⟨h.1, h.2.1, h.2.2.le⟩
  le_of_not_lt ha hb h := by
    rw [Binary.lt_iff] at h
    rw [Binary.le_iff]
    exact ⟨hb, ha, not_lt.mp fun hlt => h ⟨ha, hb, hlt⟩⟩
  negInfinity_le := by
    rintro _ ⟨rfl⟩ a ha
    rw [Binary.le_iff]
    exact ⟨rfl, ha, Binary.rank_negative_infinity_le _⟩

end BoundaryAtlas
