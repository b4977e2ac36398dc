import BoundaryAtlas.Proofs.Rounding

/-!
# Sums and differences

A sum of floating-point numbers is rounded, but it stays on its side of every number of the format.
So the difference of two different numbers is never zero, and a number that is made larger does not
become smaller. The same laws hold for exact numbers.
-/

namespace BoundaryAtlas

/-- Sums and differences may be rounded, but they keep to their side of the finite numbers. -/
class Scalar.Rounded (α : Type) [Scalar α] : Prop extends Scalar.Comparable α where
  isNumber_of_isFinite {a : α} : isFinite a = true → IsNumber a
  isFinite_of_le {a b c : α} : isFinite a = true → isFinite c = true → a ≤ b → b ≤ c →
    isFinite b = true
  not_lt_of_le {a b : α} : a ≤ b → ¬ b < a
  sub_pos {a b : α} : isFinite a = true → isFinite b = true → a < b → ofNat 0 < b - a
  sub_le_self {a s : α} : isFinite a = true → isFinite s = true → ofNat 0 < s → a - s ≤ a
  le_add_self {a s : α} : isFinite a = true → isFinite s = true → ofNat 0 < s → a ≤ a + s

namespace Scalar.Rounded

variable {α : Type} [Scalar α] [Rounded α] {a b c : α}

theorem le_refl (ha : IsNumber a) : a ≤ a :=
  Comparable.le_of_not_lt ha ha fun h => not_lt_of_le (Comparable.le_of_lt h) h

theorem lt_of_le_of_lt (hc : IsNumber c) (hab : a ≤ b) (hbc : b < c) : a < c := by
  by_contra h
  have hca := Comparable.le_of_not_lt (Comparable.isNumber_left hab) hc h
  exact not_lt_of_le (Comparable.trans hca hab) hbc

end Scalar.Rounded

instance {α : Type} [ExactScalar α] : Scalar.Rounded α where
  isNumber_of_isFinite _ := by simp [Scalar.IsNumber]
  isFinite_of_le _ _ _ _ := ExactScalar.finite _
  not_lt_of_le := not_lt_of_ge
  sub_pos _ _ h := by
    rw [ExactScalar.ofNat_eq, Nat.cast_zero]
    exact sub_pos.mpr h
  sub_le_self _ _ h := by
    rw [ExactScalar.ofNat_eq, Nat.cast_zero] at h
    exact sub_le_self _ h.le
  le_add_self _ _ h := by
    rw [ExactScalar.ofNat_eq, Nat.cast_zero] at h
    exact le_add_of_nonneg_right h.le

namespace Binary

open Float.Model (Format UnpackedFloat totalExponent)
open Float.Model.UnpackedFloat

/-! ## Results of operations -/

/-- The result of an operation with the exact value `v`, which keeps to its side of all numbers. -/
structure Rounds (v : ℤ) (r : UnpackedFloat) : Prop where
  isNumber : r ≠ .notANumber
  le : ∀ u, IsReduced u → value u ≤ v → rank u ≤ rank r
  ge : ∀ u, IsReduced u → v ≤ value u → rank r ≤ rank u

theorem rounds_value {u : UnpackedFloat} (hu : IsReduced u) : Rounds (value u) u where
  isNumber := by rintro rfl; exact hu
  le _ hv h := rank_le_rank hv hu h
  ge _ hv h := rank_le_rank hu hv h

theorem rank_le_positive_infinity (a : UnpackedFloat) : rank a ≤ rank (.infinity .positive) := by
  cases a with
  | infinity s => cases s <;> decide
  | finite s m e h =>
    apply Prod.Lex.toLex_le_toLex.mpr
    cases s with
    | positive => exact .inl (show (1 : ℤ) < 2 by decide)
    | negative => exact .inl (show (-1 : ℤ) < 2 by decide)
  | zero s => cases s <;> decide
  | notANumber => decide

theorem rounds_finite (s : Sign) {v m : ℕ} {e : ℤ} (hm : 0 < m) (hr : Reduced m e) (he : e ≤ 971)
    (hv : 0 < v) (hside : SameSide v (units m e)) : Rounds (s.apply v) (.finite s m e hm) := by
  have hreduced : IsReduced (.finite s m e hm) := ⟨hr, he⟩
  have hpos := units_pos hm e
  constructor
  · rintro ⟨⟩
  · intro u hu h
    obtain ⟨t, n, f, hn, -, hvalue⟩ := exists_units hu
    have hside := hside n f hn
    apply rank_le_rank hu hreduced
    rw [hvalue] at h ⊢
    cases s <;> cases t <;> simp only [value, Sign.apply] at h ⊢ <;> omega
  · intro u hu h
    obtain ⟨t, n, f, hn, -, hvalue⟩ := exists_units hu
    have hside := hside n f hn
    apply rank_le_rank hreduced hu
    rw [hvalue] at h ⊢
    cases s <;> cases t <;> simp only [value, Sign.apply] at h ⊢ <;> omega

theorem rounds_infinity (s : Sign) {v : ℕ}
    (hlarge : ∀ n f, Reduced n f → f ≤ 971 → units n f < v) :
    Rounds (s.apply v) (.infinity s) := by
  constructor
  · rintro ⟨⟩
  · intro u hu h
    obtain ⟨t, n, f, hn, hf, hvalue⟩ := exists_units hu
    have hlarge := hlarge n f hn hf
    cases s with
    | positive => exact rank_le_positive_infinity u
    | negative =>
      rw [hvalue] at h
      cases t <;> simp only [Sign.apply] at h <;> omega
  · intro u hu h
    obtain ⟨t, n, f, hn, hf, hvalue⟩ := exists_units hu
    have hlarge := hlarge n f hn hf
    cases s with
    | positive =>
      rw [hvalue] at h
      cases t <;> simp only [Sign.apply] at h <;> omega
    | negative => exact rank_negative_infinity_le u

theorem rounds_round (s : Sign) (m : ℕ) (e : ℤ) (hm : 0 < m) (he : -1074 ≤ e) :
    Rounds (s.apply (units m e))
      (unpack Format.binary64
        (pack Format.binary64 (UnpackedFloat.round Format.binary64 s m e))) := by
  obtain ⟨m', e', hm', hround, hreduced, hside⟩ := exists_round_eq s m e hm he
  rw [hround, unpack_pack s m' e' hm' hreduced]
  split
  · rename_i hle
    exact rounds_finite s hm' hreduced hle (units_pos hm e) hside
  · rename_i hlarge
    refine rounds_infinity s fun n f hn hf => not_le.mp fun h => ?_
    exact ((hside n f hn).2 h).not_gt (units_lt_units hn hreduced (.inl (by omega)))

theorem rounds_normalize (m e : ℤ) (s : Sign) (he : -1074 ≤ e) :
    Rounds (m * 2 ^ (e + 1074).toNat)
      (unpack Format.binary64
        (pack Format.binary64 (UnpackedFloat.normalize Format.binary64 m e s))) := by
  have hunits : ∀ n : ℤ, 0 ≤ n → (units n.toNat e : ℤ) = n * 2 ^ (e + 1074).toNat := by
    intro n hn
    rw [units, Nat.cast_mul, Int.toNat_of_nonneg hn, Nat.cast_pow, Nat.cast_ofNat]
  rcases lt_trichotomy m 0 with h | rfl | h
  · rw [UnpackedFloat.normalize, compare_lt_iff_lt.mpr h]
    have hround := rounds_round .negative (-m).toNat e (by omega) he
    rwa [Sign.apply, hunits _ (by omega), neg_mul, neg_neg] at hround
  · have hzero := unpack_pack_of_isReduced (u := .zero s) trivial
    have hcompare : compare (0 : ℤ) 0 = .eq := rfl
    rw [UnpackedFloat.normalize, hcompare, zero_mul]
    simp only
    rw [hzero]
    exact rounds_value (u := .zero s) trivial
  · rw [UnpackedFloat.normalize, compare_gt_iff_gt.mpr h]
    have hround := rounds_round .positive m.toNat e (by omega) he
    rwa [Sign.apply, hunits _ (by omega)] at hround

/-! ## Sums and differences -/

theorem apply_shiftLeft (s : Sign) (m : ℕ) (e f : ℤ) (hf : -1074 ≤ f) (h : f ≤ e) :
    s.apply (m <<< (e - f).toNat : ℕ) * 2 ^ (f + 1074).toNat = s.apply (units m e) := by
  obtain ⟨k, rfl⟩ : ∃ k : ℕ, e = f + k := ⟨(e - f).toNat, by omega⟩
  have hk : (f + k - f).toNat = k := by omega
  rw [hk, units_add m k f hf, units, Nat.shiftLeft_eq]
  cases s <;> simp [Sign.apply]

theorem rounds_add {u v : UnpackedFloat} (hu : IsReduced u) (hv : IsReduced v) :
    Rounds (value u + value v)
      (unpack Format.binary64 (pack Format.binary64 (add Format.binary64 u v))) := by
  have hexact : ∀ {r}, IsReduced r →
      Rounds (value r) (unpack Format.binary64 (pack Format.binary64 r)) := fun hr => by
    rw [unpack_pack_of_isReduced hr]
    exact rounds_value hr
  cases u with
  | notANumber => contradiction
  | infinity s => contradiction
  | zero s =>
    cases v with
    | notANumber => contradiction
    | infinity t => contradiction
    | zero t => cases s <;> cases t <;> exact hexact (r := .zero _) trivial
    | finite t m e hm =>
      change Rounds (0 + value (.finite t m e hm)) _
      rw [zero_add]
      exact hexact hv
  | finite s m e hm =>
    cases v with
    | notANumber => contradiction
    | infinity t => contradiction
    | zero t =>
      change Rounds (value (.finite s m e hm) + 0) _
      rw [add_zero]
      exact hexact hu
    | finite t m' e' hm' =>
      have hmin : -1074 ≤ min e e' := le_min hu.1.ge hv.1.ge
      change Rounds (s.apply (units m e) + t.apply (units m' e')) _
      rw [← apply_shiftLeft s m e _ hmin (min_le_left e e'),
        ← apply_shiftLeft t m' e' _ hmin (min_le_right e e'), ← Int.add_mul]
      exact rounds_normalize _ _ _ hmin

theorem sub_eq_add_neg (u v : UnpackedFloat) :
    sub Format.binary64 u v = add Format.binary64 u v.neg := by
  have happly : ∀ (s : Sign) (n : ℤ), (-s).apply n = -s.apply n := by
    intro s n
    cases s
    · exact (neg_neg n).symm
    · rfl
  cases u <;> cases v <;> try rfl
  simp only [sub, add, UnpackedFloat.neg, happly, Int.sub_eq_add_neg]

theorem isReduced_neg {u : UnpackedFloat} (hu : IsReduced u) : IsReduced u.neg := by
  cases u <;> exact hu

theorem value_neg (u : UnpackedFloat) : value u.neg = -value u := by
  cases u with
  | finite s m e hm =>
    cases s
    · exact (neg_neg _).symm
    · rfl
  | _ => rfl

theorem rounds_sub {u v : UnpackedFloat} (hu : IsReduced u) (hv : IsReduced v) :
    Rounds (value u - value v)
      (unpack Format.binary64 (pack Format.binary64 (sub Format.binary64 u v))) := by
  rw [sub_eq_add_neg, Int.sub_eq_add_neg, ← value_neg]
  exact rounds_add hu (isReduced_neg hv)

/-! ## Floating-point numbers -/

theorem isReduced_of_isFinite {a : Float} (h : Scalar.isFinite a = true) :
    IsReduced a.toModel.unpack :=
  isReduced_unpack a.toModel.toBits.toBitVec h

/-- The least positive number. -/
def least : UnpackedFloat := .finite .positive 1 (-1074) one_pos

theorem isReduced_least : IsReduced least :=
  ⟨⟨by decide, le_refl _, .inr rfl⟩, by decide⟩

theorem value_least : value least = 1 := rfl

theorem rank_zero_lt_least : rank (.zero .positive) < rank least := by decide

theorem isFinite_iff (a : Float) : Scalar.isFinite a = true ↔ Scalar.IsNumber a ∧
    rank (.infinity .negative) < rank a.toModel.unpack ∧
      rank a.toModel.unpack < rank (.infinity .positive) := by
  rw [isNumber_iff]
  change a.toModel.unpack.isFinite = true ↔ _
  cases a.toModel.unpack with
  | notANumber => simp [UnpackedFloat.isFinite]
  | infinity s => cases s <;> simp [UnpackedFloat.isFinite]
  | zero s => exact iff_of_true rfl ⟨nofun, by cases s <;> decide, by cases s <;> decide⟩
  | finite s m e hm =>
    refine iff_of_true rfl ⟨nofun, ?_, ?_⟩ <;> cases s <;> simp [rank, toLex_lt_toLex_iff]

/-! ## Infinite numbers -/

theorem unpack_pack_infinity (s : Sign) :
    unpack Format.binary64 (pack Format.binary64 (.infinity s)) = .infinity s := by
  cases s <;> rfl

/-- A finite number added to an infinite one, or taken from it, does not matter. -/
theorem infinity_add_sub {v : UnpackedFloat} (hv : IsReduced v) (s : Sign) :
    add Format.binary64 (.infinity s) v = .infinity s ∧
      sub Format.binary64 (.infinity s) v = .infinity s := by
  cases v with
  | notANumber => contradiction
  | infinity t => contradiction
  | zero t => exact ⟨rfl, rfl⟩
  | finite t m e hm => exact ⟨rfl, rfl⟩

theorem isNumber_add_sub {a s : Float} (ha : Scalar.IsNumber a) (hs : Scalar.isFinite s = true) :
    Scalar.IsNumber (a - s) ∧ Scalar.IsNumber (a + s) := by
  have hs := isReduced_of_isFinite hs
  by_cases hfinite : Scalar.isFinite a = true
  · have ha := isReduced_of_isFinite hfinite
    rw [isNumber_iff, isNumber_iff]
    exact ⟨(rounds_sub ha hs).isNumber, (rounds_add ha hs).isNumber⟩
  · rw [isNumber_iff] at ha ⊢
    rw [isNumber_iff]
    obtain ⟨t, ht⟩ : ∃ t, a.toModel.unpack = .infinity t := by
      change ¬ a.toModel.unpack.isFinite = true at hfinite
      cases hu : a.toModel.unpack with
      | notANumber => contradiction
      | infinity t => exact ⟨t, rfl⟩
      | zero t => simp [hu, UnpackedFloat.isFinite] at hfinite
      | finite t m e hm => simp [hu, UnpackedFloat.isFinite] at hfinite
    change unpack Format.binary64 (pack Format.binary64 (sub _ a.toModel.unpack _)) ≠ _ ∧
      unpack Format.binary64 (pack Format.binary64 (add _ a.toModel.unpack _)) ≠ _
    rw [ht, (infinity_add_sub hs t).1, (infinity_add_sub hs t).2, unpack_pack_infinity]
    exact ⟨nofun, nofun⟩

end Binary

instance : Scalar.Rounded Float where
  isNumber_of_isFinite h := ((Binary.isFinite_iff _).mp h).1
  isFinite_of_le ha hc hab hbc := by
    rw [Binary.isFinite_iff] at *
    rw [Binary.le_iff] at hab hbc
    exact ⟨hab.2.1, ha.2.1.trans_le hab.2.2, hbc.2.2.trans_lt hc.2.2⟩
  not_lt_of_le h hlt := by
    rw [Binary.le_iff] at h
    rw [Binary.lt_iff] at hlt
    exact hlt.2.2.not_ge h.2.2
  sub_pos ha hb h := by
    have ha := Binary.isReduced_of_isFinite ha
    have hb := Binary.isReduced_of_isFinite hb
    rw [Binary.lt_iff, Binary.isNumber_iff, Binary.isNumber_iff] at h ⊢
    have hrounds := Binary.rounds_sub hb ha
    have hvalue := Binary.value_lt_value ha hb h.2.2
    exact ⟨nofun, hrounds.isNumber, Binary.rank_zero_lt_least.trans_le
      (hrounds.le _ Binary.isReduced_least (by rw [Binary.value_least]; omega))⟩
  sub_le_self ha hs h := by
    have ha := Binary.isReduced_of_isFinite ha
    have hs := Binary.isReduced_of_isFinite hs
    rw [Binary.lt_iff] at h
    rw [Binary.le_iff, Binary.isNumber_iff, Binary.isNumber_iff]
    have hrounds := Binary.rounds_sub ha hs
    have hvalue := Binary.value_pos hs h.2.2
    exact ⟨hrounds.isNumber, (Binary.rounds_value ha).isNumber, hrounds.ge _ ha (by omega)⟩
  le_add_self ha hs h := by
    have ha := Binary.isReduced_of_isFinite ha
    have hs := Binary.isReduced_of_isFinite hs
    rw [Binary.lt_iff] at h
    rw [Binary.le_iff, Binary.isNumber_iff, Binary.isNumber_iff]
    have hrounds := Binary.rounds_add ha hs
    have hvalue := Binary.value_pos hs h.2.2
    exact ⟨(Binary.rounds_value ha).isNumber, hrounds.isNumber, hrounds.le _ ha (by omega)⟩

end BoundaryAtlas
