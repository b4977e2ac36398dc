import Mathlib.Algebra.Group.Units.Basic
import Mathlib.Algebra.Group.Units.Equiv
import Mathlib.Data.UInt
import Mathlib.Logic.Function.Iterate
import BoundaryAtlas.CommandLine.Execute

/-!
# Every draw has a seed of its own

A word that is shifted and xored onto itself often enough is back, and a product with an odd number
can be taken back by another one. So scrambling loses nothing: from the seed of a stream and one half
of a key the other half is known.
-/

namespace BoundaryAtlas

namespace Random

variable {w : Nat}

/-! ## Shifts -/

/-- The word, and the same word shifted to the right, xored. -/
def xorShift (n : Nat) (x : BitVec w) : BitVec w := x ^^^ (x >>> n)

theorem xorShift_xorShift (n : Nat) (x : BitVec w) :
    xorShift n (xorShift n x) = xorShift (n + n) x := by
  calc x ^^^ x >>> n ^^^ (x ^^^ x >>> n) >>> n
      = x ^^^ x >>> n ^^^ (x >>> n ^^^ x >>> (n + n)) := by
        rw [BitVec.ushiftRight_xor_distrib, BitVec.shiftRight_add]
    _ = x ^^^ x >>> (n + n) := by
        rw [BitVec.xor_assoc, ← BitVec.xor_assoc (x >>> n), BitVec.xor_self, BitVec.zero_xor]

theorem iterate_xorShift (n k : Nat) :
    (xorShift n)^[2 ^ k] = (xorShift (2 ^ k * n) : BitVec w → BitVec w) := by
  induction k with
  | zero => rw [pow_zero, Function.iterate_one, one_mul]
  | succ k ih =>
    funext x
    rw [pow_succ, Function.iterate_mul, ih, mul_two, add_mul]
    exact xorShift_xorShift (2 ^ k * n) x

theorem xorShift_of_le {n : Nat} (h : w ≤ n) (x : BitVec w) : xorShift n x = x := by
  rw [xorShift, BitVec.ushiftRight_eq_zero h, BitVec.xor_zero]

/-- After enough rounds the shift is longer than the word, which is back then. -/
theorem exists_iterate_xorShift {n : Nat} (hn : 0 < n) :
    ∃ k, (xorShift n)^[k + 1] = (id : BitVec w → BitVec w) := by
  have hlong : w ≤ 2 ^ w * n :=
    Nat.lt_two_pow_self.le.trans (Nat.le_mul_of_pos_right (2 ^ w) hn)
  refine ⟨2 ^ w - 1, ?_⟩
  rw [Nat.sub_add_cancel Nat.one_le_two_pow, iterate_xorShift]
  exact funext (xorShift_of_le hlong)

theorem bijective_xorShift {n : Nat} (hn : 0 < n) :
    Function.Bijective (xorShift n : BitVec w → BitVec w) := by
  obtain ⟨k, hk⟩ := exists_iterate_xorShift hn (w := w)
  -- all rounds but one are the inverse
  refine Function.bijective_iff_has_inverse.mpr ⟨(xorShift n)^[k], ?_, ?_⟩
  · exact congrFun ((Function.iterate_succ _ _).symm.trans hk)
  · exact congrFun ((Function.iterate_succ' _ _).symm.trans hk)

/-! ## Scrambling -/

theorem bijective_mul {m i : BitVec w} (h : m * i = 1) : Function.Bijective (· * m) :=
  IsUnit.isUnit_iff_mulRight_bijective.mp (IsUnit.of_mul_eq_one i h)

theorem bijective_xor (c : UInt64) : Function.Bijective (c ^^^ ·) := by
  refine Function.Involutive.bijective fun x => ?_
  rw [← UInt64.xor_assoc, UInt64.xor_self, UInt64.zero_xor]

theorem bijective_toBitVec : Function.Bijective UInt64.toBitVec :=
  ⟨UInt64.toBitVec_injective, fun x => ⟨⟨x⟩, rfl⟩⟩

theorem toBitVec_scramble (x : UInt64) :
    (scramble x).toBitVec = xorShift 31
      (xorShift 27 (xorShift 30 x.toBitVec * 0xbf58476d1ce4e5b9#64) * 0x94d049bb133111eb#64) :=
  rfl

theorem bijective_scramble : Function.Bijective scramble := by
  -- the factors and their inverses modulo `2 ^ 64`
  have hfirst : Function.Bijective (· * 0xbf58476d1ce4e5b9#64) :=
    bijective_mul (i := 0x96de1b173f119089#64) (by decide)
  have hsecond : Function.Bijective (· * 0x94d049bb133111eb#64) :=
    bijective_mul (i := 0x319642b2d24d8ec3#64) (by decide)
  have hwords : Function.Bijective (UInt64.toBitVec ∘ scramble) := by
    rw [funext (f := UInt64.toBitVec ∘ scramble) toBitVec_scramble]
    exact (bijective_xorShift (by decide)).comp <| hsecond.comp <|
      (bijective_xorShift (by decide)).comp <| hfirst.comp <|
        (bijective_xorShift (by decide)).comp bijective_toBitVec
  exact (bijective_toBitVec.of_comp_iff' scramble).mp hwords

end Random

/-! ## Runs -/

namespace CommandLine

/-- The keys of `count` samples of a run, of which the first has the given index. -/
def sampleKeys (seed count index : Nat) : List DrawKey :=
  (List.range' index count).map fun i => ⟨seed.toUInt64, i.toUInt64⟩

/-- Draws the boundary of a key, labels it and takes note of the outcome. -/
def noteSample (p : Pipeline Float Unit) (d : Grid Float) (kinks : Nat)
    (noted : Array Record × Tally) (key : DrawKey) :
    Except (Fault Float) (Array Record × Tally) := do
  let b ← GridBoundary.sample d kinks key
  let outcome := (p.labelGrid d b (.new () false)).1
  match outcome with
  | .labeled record => return (noted.1.push record, noted.2.note outcome)
  | .failed _ fault => if fault.isLocal then return (noted.1, noted.2.note outcome) else throw fault

theorem sampleFrom_eq_foldlM (p : Pipeline Float Unit) (d : Grid Float)
    (kinks seed count index : Nat) (records : Array Record) (tally : Tally) :
    sampleFrom p d kinks seed count index records tally =
      (sampleKeys seed count index).foldlM (noteSample p d kinks) (records, tally) := by
  induction count generalizing index records tally with
  | zero => rfl
  | succ count ih =>
    rw [sampleFrom, sampleKeys, List.range'_succ, List.map_cons, List.foldlM_cons, noteSample,
      bind_assoc]
    refine bind_congr fun b => ?_
    dsimp only
    cases (p.labelGrid d b (.new () false)).1 with
    | labeled record => exact ih _ _ _
    | failed _ fault =>
      dsimp only
      split
      · exact ih _ _ _
      · rfl

theorem nodup_sampleKeys (seed : Nat) {count : Nat} (h : count ≤ 2 ^ 64) :
    (sampleKeys seed count 0).Nodup := by
  refine List.Nodup.map_on (fun i hi j hj heq => ?_) List.nodup_range'
  rw [List.mem_range'_1] at hi hj
  have hfits (n : Nat) (hn : n < 2 ^ 64) : n.toUInt64.toNat = n := UInt64.toNat_ofNat_of_lt' hn
  have hindex : i.toUInt64.toNat = j.toUInt64.toNat :=
    congrArg (fun key => key.index.toNat) heq
  rwa [hfits i (by omega), hfits j (by omega)] at hindex

end CommandLine

namespace DrawKey

open BoundaryAtlas.Random CommandLine

theorem bijective_index (seed : UInt64) :
    Function.Bijective fun index => streamSeed ⟨seed, index⟩ :=
  bijective_scramble.comp <| (bijective_xor seed).comp <|
    bijective_scramble.comp (AddGroup.addRight_bijective _)

theorem bijective_seed (index : UInt64) :
    Function.Bijective fun seed => streamSeed ⟨seed, index⟩ := by
  have hmask : Function.Bijective (· ^^^ scramble (index + 0x9e3779b97f4a7c15)) := by
    simpa only [UInt64.xor_comm] using bijective_xor (scramble (index + 0x9e3779b97f4a7c15))
  exact bijective_scramble.comp hmask

theorem nodup_streamSeed (seed : Nat) {count : Nat} (h : count ≤ 2 ^ 64) :
    ((sampleKeys seed count 0).map streamSeed).Nodup := by
  refine List.Nodup.map_on (fun k hk l hl heq => ?_) (nodup_sampleKeys seed h)
  obtain ⟨i, -, rfl⟩ := List.mem_map.mp hk
  obtain ⟨j, -, rfl⟩ := List.mem_map.mp hl
  rw [(bijective_index seed.toUInt64).injective heq]

/-- **Draw keys.** With one seed each word is the seed of the stream for exactly one index, and with
one index for exactly one seed. A run draws its samples with its keys in their order, and no two of
them from streams with the same seed. -/
theorem streamSeed_bijective :
    (∀ seed, Function.Bijective fun index => streamSeed ⟨seed, index⟩) ∧
    (∀ index, Function.Bijective fun seed => streamSeed ⟨seed, index⟩) ∧
    ∀ seed count, count ≤ 2 ^ 64 →
      ((sampleKeys seed count 0).map streamSeed).Nodup ∧
      ∀ p d kinks, sampleFrom p d kinks seed count 0 #[] .zero =
        (sampleKeys seed count 0).foldlM (noteSample p d kinks) (#[], .zero) :=
  ⟨bijective_index, bijective_seed, fun seed _ h => ⟨nodup_streamSeed seed h,
    fun p d kinks => sampleFrom_eq_foldlM p d kinks seed _ 0 #[] .zero⟩⟩

end DrawKey

end BoundaryAtlas
