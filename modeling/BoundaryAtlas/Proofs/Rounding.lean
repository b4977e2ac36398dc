import Mathlib
import BoundaryAtlas.Proofs.Comparison

/-!
# Rounding

A floating-point number is a mantissa and an exponent. A number that has too many digits is rounded,
and then lies on the same side of every number of the format as before.
-/

namespace BoundaryAtlas.Binary

open Float.Model (Format UnpackedFloat totalExponent)
open Float.Model.UnpackedFloat

/-! ## The format -/

theorem exponentBias_eq : (Format.binary64.exponentBias : ℤ) = 1023 := rfl

theorem storedBits_eq : (Format.binary64.mantissaBitsWithoutImplicit : ℤ) = 52 := rfl

theorem mantissaBits_eq : Format.binary64.mantissaBits = 53 := rfl

theorem minExponent_eq : Format.binary64.minExponent = -1074 := by decide

/-! ## Values -/

/-- A mantissa and an exponent, in multiples of the least positive number. -/
def units (m : ℕ) (e : ℤ) : ℕ := m * 2 ^ (e + 1074).toNat

/-- A finite number, in multiples of the least positive one. -/
def value : UnpackedFloat → ℤ
  | .finite s m e _ => s.apply (units m e)
  | _ => 0

theorem units_pos {m : ℕ} (hm : 0 < m) (e : ℤ) : 0 < units m e :=
  Nat.mul_pos hm (Nat.two_pow_pos _)

theorem units_le_units_iff (m m' : ℕ) (e : ℤ) : units m e ≤ units m' e ↔ m ≤ m' :=
  Nat.mul_le_mul_right_iff (Nat.two_pow_pos _)

theorem units_add (m k : ℕ) (e : ℤ) (he : -1074 ≤ e) : units m (e + k) = units (m * 2 ^ k) e := by
  have hsum : (e + k + 1074).toNat = k + (e + 1074).toNat := by omega
  rw [units, units, hsum, pow_add, mul_assoc]

/-- A mantissa and an exponent in the form in which a finite number is unpacked. -/
structure Reduced (m : ℕ) (e : ℤ) : Prop where
  lt : m < 2 ^ 53
  ge : -1074 ≤ e
  full : 2 ^ 52 ≤ m ∨ e = -1074

theorem units_lt_units {m m' : ℕ} {e e' : ℤ} (hr : Reduced m e) (hr' : Reduced m' e')
    (h : e < e' ∨ e = e' ∧ m < m') : units m e < units m' e' := by
  rcases h with h | ⟨rfl, h⟩
  · have hge := hr.ge
    have hfull : 2 ^ 52 ≤ m' := hr'.full.resolve_right (by omega)
    obtain ⟨k, hk⟩ : ∃ k : ℕ, e' = e + (k + 1 : ℕ) := ⟨(e' - e - 1).toNat, by omega⟩
    rw [hk, units_add m' _ e hge]
    apply Nat.mul_lt_mul_of_pos_right _ (Nat.two_pow_pos _)
    calc m < 2 ^ 52 * 2 ^ 1 := hr.lt
      _ ≤ m' * 2 ^ (k + 1) := Nat.mul_le_mul hfull (Nat.pow_le_pow_right two_pos (by omega))
  · exact Nat.mul_lt_mul_of_pos_right h (Nat.two_pow_pos _)

/-- A finite number as it is unpacked. -/
def IsReduced : UnpackedFloat → Prop
  | .finite _ m e _ => Reduced m e ∧ e ≤ 971
  | .zero _ => True
  | _ => False

theorem exists_units {u : UnpackedFloat} (hu : IsReduced u) :
    ∃ (s : Sign) (m : ℕ) (e : ℤ), Reduced m e ∧ e ≤ 971 ∧ value u = s.apply (units m e) := by
  cases u with
  | notANumber => contradiction
  | infinity s => contradiction
  | zero s => exact ⟨.positive, 0, -1074, ⟨by decide, le_refl _, .inr rfl⟩, by decide, rfl⟩
  | finite s m e hm => exact ⟨s, m, e, hu.1, hu.2, rfl⟩

theorem toLex_lt_toLex_iff (s s' e e' m m' : ℤ) :
    toLex (s, toLex (e, m)) < toLex (s', toLex (e', m')) ↔
      s < s' ∨ s = s' ∧ (e < e' ∨ e = e' ∧ m < m') := by
  rw [Prod.Lex.toLex_lt_toLex, Prod.Lex.toLex_lt_toLex]

theorem value_lt_value {u v : UnpackedFloat} (hu : IsReduced u) (hv : IsReduced v)
    (h : rank u < rank v) : value u < value v := by
  cases u with
  | notANumber => contradiction
  | infinity s => contradiction
  | zero s =>
    cases v with
    | notANumber => contradiction
    | infinity t => contradiction
    | zero t => exact absurd h (lt_irrefl _)
    | finite t m e hm =>
      have hpos := units_pos hm e
      cases t with
      | negative => simp [rank, toLex_lt_toLex_iff] at h
      | positive => simpa [value, Sign.apply] using hpos
  | finite s m e hm =>
    have hpos := units_pos hm e
    cases v with
    | notANumber => contradiction
    | infinity t => contradiction
    | zero t =>
      cases s with
      | negative => simpa [value, Sign.apply] using hpos
      | positive => simp [rank, toLex_lt_toLex_iff] at h
    | finite t m' e' hm' =>
      have hpos' := units_pos hm' e'
      have hlt := units_lt_units hu.1 hv.1
      have hgt := units_lt_units hv.1 hu.1
      cases s <;> cases t <;> simp only [rank, toLex_lt_toLex_iff] at h <;>
        simp only [value, Sign.apply] <;> omega

theorem value_pos {u : UnpackedFloat} (hu : IsReduced u) (h : rank (.zero .positive) < rank u) :
    0 < value u :=
  value_lt_value (u := .zero .positive) trivial hu h

theorem rank_le_rank {u v : UnpackedFloat} (hu : IsReduced u) (hv : IsReduced v)
    (h : value u ≤ value v) : rank u ≤ rank v :=
  not_lt.mp fun hlt => (value_lt_value hv hu hlt).not_ge h

/-! ## Rounding a mantissa -/

theorem mantissa_shiftRight (em : ExtendedMantissa) (k : ℕ) :
    (em >>> k).mantissa = em.mantissa / 2 ^ k := by
  induction k with
  | zero => exact (Nat.div_one _).symm
  | succ k ih =>
    change (em >>> k).mantissa / 2 = _
    rw [ih, Nat.div_div_eq_div_mul, pow_succ]

/-- A mantissa of which nothing is cut off. -/
def whole (m : ℕ) : ExtendedMantissa := ⟨m, false, false⟩

@[simp] theorem mantissa_whole (m : ℕ) : (whole m).mantissa = m := rfl

theorem whole_shiftRight (m k : ℕ) : whole (m * 2 ^ k) >>> k = whole m := by
  induction k generalizing m with
  | zero => rw [pow_zero, mul_one]; rfl
  | succ k ih =>
    change (whole (m * 2 ^ (k + 1)) >>> k).shiftRightOne = _
    rw [pow_succ', ← mul_assoc, ih]
    simp [whole, ExtendedMantissa.shiftRightOne]

theorem roundedMantissa_bounds (em : ExtendedMantissa) :
    em.mantissa ≤ em.roundedMantissa ∧ em.roundedMantissa ≤ em.mantissa + 1 := by
  obtain ⟨m, round, sticky⟩ := em
  cases round <;> cases sticky <;>
    simp only [ExtendedMantissa.roundedMantissa, ExtendedMantissa.accuracy,
      Accuracy.roundToNearestEven] <;> omega

/-- What is left of a mantissa after its last `k` digits are rounded away. -/
def rounded (m k : ℕ) : ℕ := (whole m >>> k).roundedMantissa

theorem div_le_rounded (m k : ℕ) : m / 2 ^ k ≤ rounded m k := by
  have h := (roundedMantissa_bounds (whole m >>> k)).1
  rwa [mantissa_shiftRight] at h

theorem le_rounded (m k n : ℕ) (h : n * 2 ^ k ≤ m) : n ≤ rounded m k :=
  ((Nat.le_div_iff_mul_le (Nat.two_pow_pos k)).mpr h).trans (div_le_rounded m k)

theorem rounded_le (m k n : ℕ) (h : m ≤ n * 2 ^ k) : rounded m k ≤ n := by
  rcases h.eq_or_lt with rfl | h
  · rw [rounded, whole_shiftRight]
    exact le_refl n
  · have hbound := (roundedMantissa_bounds (whole m >>> k)).2
    have hlt := (Nat.div_lt_iff_lt_mul (Nat.two_pow_pos k)).mpr h
    rw [mantissa_shiftRight] at hbound
    exact hbound.trans hlt

/-! ## Rounding to the format -/

/-- The second number is on the side of the first one that each number of the format is on. -/
def SameSide (v w : ℕ) : Prop :=
  ∀ n f, Reduced n f → (units n f ≤ v → units n f ≤ w) ∧ (v ≤ units n f → w ≤ units n f)

theorem shift_eq (m : ℕ) (e : ℤ) (he : -1074 ≤ e) :
    (Format.binary64.targetExponent (totalExponent m e) - e).toNat = m.log2 - 52 := by
  rw [Format.targetExponent, totalExponent, mantissaBits_eq, minExponent_eq]
  omega

theorem shiftToTargetExponent_eq (m : ℕ) (e : ℤ) (he : -1074 ≤ e) :
    shiftToTargetExponent Format.binary64 m e .exact =
      (whole m >>> (m.log2 - 52), e + (m.log2 - 52 : ℕ)) := by
  rw [← shift_eq m e he]
  rfl

theorem full_shifted {m : ℕ} (h : 2 ^ 52 ≤ m) : 2 ^ 52 ≤ m / 2 ^ (m.log2 - 52) := by
  have hm : m ≠ 0 := by omega
  have hlog : 52 ≤ m.log2 := (Nat.le_log2 hm).mpr h
  rw [Nat.le_div_iff_mul_le (Nat.two_pow_pos _), ← pow_add, Nat.add_sub_cancel' hlog]
  exact Nat.log2_self_le hm

theorem shifted_lt (m : ℕ) : m / 2 ^ (m.log2 - 52) < 2 ^ 53 := by
  rw [Nat.div_lt_iff_lt_mul (Nat.two_pow_pos _), ← pow_add]
  exact Nat.lt_log2_self.trans_le (Nat.pow_le_pow_right two_pos (by omega))

theorem log2_eq_of_not_full {m : ℕ} (h : ¬ 2 ^ 52 ≤ m) : m.log2 - 52 = 0 := by
  by_cases hm : m = 0
  · rw [hm]; rfl
  · have := (Nat.log2_lt hm).mpr (not_le.mp h)
    omega

theorem sameSide_rounded (m : ℕ) (e : ℤ) (he : -1074 ≤ e) (hfull : 2 ^ 52 ≤ m ∨ e = -1074) :
    SameSide (units m e) (units (rounded m (m.log2 - 52)) (e + (m.log2 - 52 : ℕ))) := by
  intro n f hn
  generalize hk : m.log2 - 52 = k
  by_cases hle : e + k ≤ f
  · -- The number is a multiple of the unit to which the mantissa is rounded.
    obtain ⟨j, hj⟩ : ∃ j : ℕ, f = e + k + j := ⟨(f - (e + k)).toNat, by omega⟩
    rw [hj, units_add n j (e + k) (by omega), units_le_units_iff, units_le_units_iff,
      units_add _ k e he, units_le_units_iff, units_le_units_iff]
    exact ⟨le_rounded m k _, rounded_le m k _⟩
  · -- The number is so small that it lies below both.
    have hm : 2 ^ 52 ≤ m := by
      by_contra hshort
      have := log2_eq_of_not_full hshort
      have := hn.ge
      omega
    have hshifted := full_shifted hm
    rw [hk] at hshifted
    have hlt : units n f < units (2 ^ 52) (e + k) :=
      units_lt_units hn ⟨by decide, by omega, .inl (le_refl _)⟩ (.inl (not_le.mp hle))
    have hleft : units (2 ^ 52) (e + k) ≤ units m e := by
      rw [units_add _ k e he, units_le_units_iff]
      exact (Nat.le_div_iff_mul_le (Nat.two_pow_pos k)).mp hshifted
    have hright : units (2 ^ 52) (e + k) ≤ units (rounded m k) (e + k) :=
      (units_le_units_iff _ _ _).mpr (hshifted.trans (div_le_rounded m k))
    omega

/-- The second shift only moves a digit that rounding has carried. -/
theorem reduced_shifted (m : ℕ) (e : ℤ) (he : -1074 ≤ e) (hle : m ≤ 2 ^ 53)
    (hfull : 2 ^ 52 ≤ m ∨ e = -1074) :
    Reduced (m / 2 ^ (m.log2 - 52)) (e + (m.log2 - 52 : ℕ)) ∧
      units (m / 2 ^ (m.log2 - 52)) (e + (m.log2 - 52 : ℕ)) = units m e := by
  rcases hle.eq_or_lt with rfl | hlt
  · have hlog : (2 ^ 53).log2 - 52 = 1 := by rw [Nat.log2_two_pow]
    rw [hlog, units_add _ 1 e he]
    exact ⟨⟨by decide, by omega, .inl (by decide)⟩, rfl⟩
  · have hlog : m.log2 - 52 = 0 := by
      by_cases hm : m = 0
      · rw [hm]; rfl
      · have := (Nat.log2_lt hm).mpr hlt
        omega
    rw [hlog, pow_zero, Nat.div_one, Nat.cast_zero, add_zero]
    exact ⟨⟨hlt, he, hfull⟩, rfl⟩

theorem exists_roundWithAccuracy_eq (s : Sign) (m : ℕ) (e : ℤ) (hm : 0 < m) (he : -1074 ≤ e)
    (hfull : 2 ^ 52 ≤ m ∨ e = -1074) :
    ∃ m' e' h, roundWithAccuracy Format.binary64 s m e .exact = .finite s m' e' h ∧
      Reduced m' e' ∧ SameSide (units m e) (units m' e') := by
  have hside := sameSide_rounded m e he hfull
  have hge := div_le_rounded m (m.log2 - 52)
  have hle : rounded m (m.log2 - 52) ≤ 2 ^ 53 :=
    rounded_le _ _ _ ((Nat.div_lt_iff_lt_mul (Nat.two_pow_pos _)).mp (shifted_lt m)).le
  have hfull' : 2 ^ 52 ≤ rounded m (m.log2 - 52) ∨ e + (m.log2 - 52 : ℕ) = -1074 := by
    by_cases h : 2 ^ 52 ≤ m
    · exact .inl ((full_shifted h).trans hge)
    · rw [log2_eq_of_not_full h]
      exact .inr (by simpa using hfull.resolve_left h)
  obtain ⟨hreduced, hunits⟩ := reduced_shifted _ _ (by omega) hle hfull'
  -- The number is not rounded to zero, since the least positive number lies at or below it.
  have hpos : 0 < rounded m (m.log2 - 52) / 2 ^ ((rounded m (m.log2 - 52)).log2 - 52) := by
    have hone := (hside 1 (-1074) ⟨by decide, le_refl _, .inr rfl⟩).1 (units_pos hm e)
    rw [← hunits] at hone
    exact Nat.pos_of_mul_pos_right (Nat.lt_of_lt_of_le (units_pos one_pos _) hone)
  have hsecond := shiftToTargetExponent_eq (rounded m (m.log2 - 52)) (e + (m.log2 - 52 : ℕ))
    (by omega)
  simp only [rounded] at hsecond
  simp only [roundWithAccuracy, shiftToTargetExponent_eq m e he, hsecond, mantissa_shiftRight,
    mantissa_whole]
  exact ⟨_, _, hpos, dif_neg hpos.ne', hreduced, hunits ▸ hside⟩

theorem exists_round_eq (s : Sign) (m : ℕ) (e : ℤ) (hm : 0 < m) (he : -1074 ≤ e) :
    ∃ m' e' h, UnpackedFloat.round Format.binary64 s m e = .finite s m' e' h ∧ Reduced m' e' ∧
      SameSide (units m e) (units m' e') := by
  -- The exponent is lowered until the mantissa is full, but not below the least exponent.
  obtain ⟨j, hj⟩ : ∃ j, (e - Format.binary64.targetExponent (totalExponent m e)).toNat = j :=
    ⟨_, rfl⟩
  have hje : -1074 ≤ e - j := by
    rw [Format.targetExponent, minExponent_eq] at hj
    omega
  have hfull : 2 ^ 52 ≤ m * 2 ^ j ∨ e - j = -1074 := by
    rw [Format.targetExponent, totalExponent, mantissaBits_eq, minExponent_eq] at hj
    by_cases hlast : e - j = -1074
    · exact .inr hlast
    · left
      calc 2 ^ 52 ≤ 2 ^ (m.log2 + j) := Nat.pow_le_pow_right two_pos (by omega)
        _ = 2 ^ m.log2 * 2 ^ j := pow_add _ _ _
        _ ≤ m * 2 ^ j := Nat.mul_le_mul_right _ (Nat.log2_self_le hm.ne')
  have hunits : units (m * 2 ^ j) (e - j) = units m e := by
    rw [← units_add _ _ _ hje, Int.sub_add_cancel]
  simp only [UnpackedFloat.round, decreaseExponent, hj, Nat.shiftLeft_eq]
  rw [← hunits]
  exact exists_roundWithAccuracy_eq s _ _ (Nat.mul_pos hm (Nat.two_pow_pos j)) hje hfull

/-! ## Packing and unpacking -/

theorem toNat_one_append (m : BitVec 52) : (1#1 ++ m).toNat = 2 ^ 52 + m.toNat := by
  rw [BitVec.toNat_append, ← Nat.shiftLeft_add_eq_or_of_lt m.isLt]
  rfl

theorem ofNat_ne_of_toNat_ne {n k : ℕ} (b : BitVec n) (hk : k < 2 ^ n) (h : k ≠ b.toNat) :
    BitVec.ofNat n k ≠ b := by
  rintro rfl
  exact h (by rw [BitVec.toNat_ofNat, Nat.mod_eq_of_lt hk])

theorem unpack_packComponents_full (s : Sign) (m : ℕ) (e : ℤ) (hm : 0 < m) (h : Reduced m e)
    (hfull : 2 ^ 52 ≤ m) (hle : e ≤ 971) :
    unpack Format.binary64 (packComponents Format.binary64 s
      (BitVec.ofNat 11 (e + 1023 + 52).toNat) (BitVec.ofNat 52 m)) = .finite s m e hm := by
  have hlt := h.lt
  have hge := h.ge
  have hexponent : (BitVec.ofNat 11 (e + 1023 + 52).toNat).toNat = (e + 1023 + 52).toNat := by
    rw [BitVec.toNat_ofNat]
    omega
  rw [unpack]
  simp only [unpackExponent_packComponents, unpackMantissa_packComponents,
    unpackSign_packComponents, Sign.ofBitVec_toBitVec]
  rw [if_neg (ofNat_ne_of_toNat_ne _ (by omega) (by simp; omega)),
    if_neg (ofNat_ne_of_toNat_ne _ (by omega) (by simp; omega))]
  simp only [finite.injEq, true_and]
  constructor
  · rw [toNat_one_append, BitVec.toNat_ofNat]
    omega
  · rw [exponentBias_eq, storedBits_eq, hexponent]
    omega

theorem unpack_packComponents_short (s : Sign) (m : ℕ) (e : ℤ) (hm : 0 < m) (h : Reduced m e)
    (hshort : m < 2 ^ 52) :
    unpack Format.binary64 (packComponents Format.binary64 s 0#11 (BitVec.ofNat 52 m)) =
      .finite s m e hm := by
  rw [unpack]
  simp only [unpackExponent_packComponents, unpackMantissa_packComponents,
    unpackSign_packComponents, Sign.ofBitVec_toBitVec]
  rw [if_neg (by decide), if_pos trivial,
    dif_neg (ofNat_ne_of_toNat_ne _ hshort (by simpa using hm.ne'))]
  simp only [finite.injEq, true_and]
  constructor
  · exact (BitVec.toNat_ofNat _ _).trans (Nat.mod_eq_of_lt hshort)
  · rw [exponentBias_eq, storedBits_eq]
    exact (h.full.resolve_left (by omega)).symm

/-- A number of the format comes back from its bits, unless its exponent is too large. -/
theorem unpack_pack (s : Sign) (m : ℕ) (e : ℤ) (hm : 0 < m) (h : Reduced m e) :
    unpack Format.binary64 (pack Format.binary64 (.finite s m e hm)) =
      if e ≤ 971 then .finite s m e hm else .infinity s := by
  have hexponents : 2 ^ Format.binary64.exponentBits = 2048 := rfl
  have hge := h.ge
  rw [pack, exponentBias_eq, storedBits_eq, mantissaBits_eq, hexponents]
  simp only
  by_cases hle : e ≤ 971
  · rw [if_neg (by omega), if_pos hle]
    split
    · rename_i hlog
      exact unpack_packComponents_full s m e hm h ((Nat.le_log2 hm.ne').mp (by omega)) hle
    · rename_i hlog
      have hlt := (Nat.log2_lt hm.ne').mpr h.lt
      exact unpack_packComponents_short s m e hm h ((Nat.log2_lt hm.ne').mp (by omega))
  · rw [if_pos (by omega), if_neg hle]
    cases s <;> rfl

theorem isReduced_unpack (b : BitVec Format.binary64.numBits)
    (h : (unpack Format.binary64 b).isFinite = true) : IsReduced (unpack Format.binary64 b) := by
  have hmantissa : (unpackMantissa b).toNat < 2 ^ 52 := (unpackMantissa b).isLt
  have hexponent : (unpackExponent b).toNat < 2 ^ 11 := (unpackExponent b).isLt
  rw [unpack] at h ⊢
  split at h
  · split at h <;> contradiction
  · rename_i hlast
    rw [if_neg hlast]
    split
    · rename_i hzero
      split
      · trivial
      · have hexponent : (unpackExponent b).toNat = 0 := congrArg BitVec.toNat hzero
        rw [hexponent, exponentBias_eq, storedBits_eq]
        exact ⟨⟨by omega, by decide, .inr rfl⟩, by decide⟩
    · rename_i hzero
      have happend := toNat_one_append (unpackMantissa b)
      have hpos : (unpackExponent b).toNat ≠ 0 := fun h => hzero (BitVec.eq_of_toNat_eq h)
      have hle : (unpackExponent b).toNat ≠ 2047 := fun h => hlast (BitVec.eq_of_toNat_eq h)
      rw [exponentBias_eq, storedBits_eq]
      exact ⟨⟨by omega, by omega, .inl (by omega)⟩, by omega⟩

theorem unpack_pack_of_isReduced {u : UnpackedFloat} (hu : IsReduced u) :
    unpack Format.binary64 (pack Format.binary64 u) = u := by
  cases u with
  | notANumber => contradiction
  | infinity s => contradiction
  | zero s => cases s <;> rfl
  | finite s m e hm => rw [unpack_pack s m e hm hu.1, if_pos hu.2]

end BoundaryAtlas.Binary
