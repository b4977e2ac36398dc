import BoundaryAtlas.Proofs.Comparison
import BoundaryAtlas.Labeler.EnvelopeRule

/-!
# Verdicts of the envelope labeler

One pass from the last sample to the first finds the largest later values. The verdict it gives is
the one that asks at each sample for a later one.
-/

namespace BoundaryAtlas.EnvelopeRule

open Scalar

variable {α : Type} [Scalar α]

/-! ## The curves -/

theorem belowUpper_iff (o : EnvelopeRule α) (t : Trace α) :
    o.belowUpper t = true ↔ ∀ i (hi : i < t.length),
      ∃ u, o.envelope.upper.eval? t[i].x = some u ∧ t[i].y ≤ u := by
  unfold belowUpper
  rw [List.all_eq_true, List.forall_mem_iff_forall_getElem]
  simp [Option.any_eq_true]

theorem reachesLower_iff (o : EnvelopeRule α) (x y : α) :
    o.reachesLower x y = true ↔ ∃ l, o.envelope.lower.eval? x = some l ∧ l ≤ y := by
  simp [reachesLower, Option.any_eq_true]

theorem aboveLower_pointwise_iff (o : EnvelopeRule α) (hdemand : o.demand = .pointwise)
    (t : Trace α) :
    o.aboveLower t = true ↔ ∀ i (hi : i < t.length),
      ∃ l, o.envelope.lower.eval? t[i].x = some l ∧ l ≤ t[i].y := by
  unfold aboveLower
  rw [hdemand, List.all_eq_true, List.forall_mem_iff_forall_getElem]
  simp only [reachesLower_iff]

/-! ## The largest later value -/

omit [Scalar α] in
theorem exists_mem_drop_iff (t : Trace α) (i : Nat) (P : Point α → Prop) :
    (∃ p ∈ t.drop i, P p) ↔ ∃ j, ∃ hj : j < t.length, i ≤ j ∧ P t[j] := by
  constructor
  · rintro ⟨p, hp, h⟩
    obtain ⟨k, hk, rfl⟩ := List.getElem_of_mem hp
    rw [List.length_drop] at hk
    rw [List.getElem_drop] at h
    exact ⟨i + k, by omega, by omega, h⟩
  · rintro ⟨j, hj, hij, h⟩
    obtain ⟨k, rfl⟩ := Nat.exists_eq_add_of_le hij
    refine ⟨t[i + k], ?_, h⟩
    rw [← List.getElem_drop (h := by rw [List.length_drop]; omega)]
    exact List.getElem_mem _

/-- The number `m` is the largest value of the samples. -/
structure IsPeak (t : Trace α) (m : α) : Prop where
  isNumber : IsNumber m
  le_iff : ∀ l, l ≤ m ↔ ∃ p ∈ t, l ≤ p.y

theorem length_suffixMaxima (t : Trace α) : (suffixMaxima t).length = t.length := by
  induction t with
  | nil => rfl
  | cons p rest ih => simp [suffixMaxima, ih]

variable [Comparable α]

theorem isPeak_singleton (p : Point α) (hp : IsNumber p.y) :
    IsPeak [p] (raise p.y negInfinity?) := by
  unfold raise
  cases hbottom : (negInfinity? : Option α) with
  | none => exact ⟨hp, by simp⟩
  | some bottom =>
    -- the value below all others is reached by whatever reaches a sample
    have hle : bottom ≤ p.y := Comparable.negInfinity_le hbottom p.y hp
    have hnumber : IsNumber bottom := Comparable.isNumber_left hle
    refine ⟨isNumber_larger hnumber hp, ?_⟩
    intro l
    rw [le_larger_iff hnumber hp]
    simpa using fun h => Comparable.trans h hle

theorem isPeak_cons (p : Point α) (rest : Trace α) (m : α) (hp : IsNumber p.y)
    (h : IsPeak rest m) : IsPeak (p :: rest) (raise p.y (some m)) := by
  refine ⟨isNumber_larger h.isNumber hp, ?_⟩
  intro l
  rw [raise, le_larger_iff h.isNumber hp, h.le_iff]
  simp [or_comm]

theorem isPeak_suffixMaxima (t : Trace α) (ht : ∀ p ∈ t, IsNumber p.y) :
    ∀ i (h : i < (suffixMaxima t).length), IsPeak (t.drop i) (suffixMaxima t)[i] := by
  induction t with
  | nil => intro i h; simp [suffixMaxima] at h
  | cons p rest ih =>
    obtain ⟨hp, hrest⟩ := List.forall_mem_cons.mp ht
    intro i h
    cases i with
    | zero =>
      cases hmaxima : suffixMaxima rest with
      | nil =>
        have : rest = [] := by simpa [hmaxima] using (length_suffixMaxima rest).symm
        subst this
        exact isPeak_singleton p hp
      | cons m ms =>
        have hm : IsPeak rest m := by simpa [hmaxima] using ih hrest 0 (by simp [hmaxima])
        simpa [suffixMaxima, hmaxima] using isPeak_cons p rest m hp hm
    | succ i => exact ih hrest i (by simpa [suffixMaxima] using h)

/-! ## Verdicts -/

theorem aboveLower_eventually_iff (o : EnvelopeRule α) (hdemand : o.demand = .eventually)
    (t : Trace α) (ht : ∀ p ∈ t, IsNumber p.y) :
    o.aboveLower t = true ↔ ∀ i (hi : i < t.length),
      ∃ l, o.envelope.lower.eval? t[i].x = some l ∧
        ∃ j, ∃ hj : j < t.length, i ≤ j ∧ l ≤ t[j].y := by
  unfold aboveLower
  rw [hdemand, List.all_eq_true, List.forall_mem_iff_forall_getElem]
  simp only [List.length_zip, length_suffixMaxima, min_self, List.getElem_zip, reachesLower_iff]
  refine forall₂_congr fun i hi => exists_congr fun l => and_congr_right fun _ => ?_
  have hpeak := isPeak_suffixMaxima t ht i (by rwa [length_suffixMaxima])
  rw [hpeak.le_iff, exists_mem_drop_iff]

/-- **Verdicts.** A trace is positive exactly if the upper curve has a value at each sample that is
not below it, and the lower curve has one that the trace reaches: at that sample or at a later one,
or at that sample, as the rule demands. -/
theorem classify_iff (o : EnvelopeRule α) (t : Trace α) :
    o.classify t = true ↔
      (∀ i (hi : i < t.length), ∃ u, o.envelope.upper.eval? t[i].x = some u ∧ t[i].y ≤ u) ∧
      ∀ i (hi : i < t.length), ∃ l, o.envelope.lower.eval? t[i].x = some l ∧
        (o.demand = .eventually → ∃ j, ∃ hj : j < t.length, i ≤ j ∧ l ≤ t[j].y) ∧
        (o.demand = .pointwise → l ≤ t[i].y) := by
  rw [classify, Bool.and_eq_true, belowUpper_iff]
  refine and_congr_right fun hupper => ?_
  cases hdemand : o.demand with
  | pointwise => simp [aboveLower_pointwise_iff o hdemand t]
  | eventually =>
    -- what is not a number is not below the upper curve
    have ht : ∀ p ∈ t, IsNumber p.y := by
      intro p hp
      obtain ⟨i, hi, rfl⟩ := List.getElem_of_mem hp
      obtain ⟨u, -, hu⟩ := hupper i hi
      exact Comparable.isNumber_left hu
    simp [aboveLower_eventually_iff o hdemand t ht]

/-- The reference envelope with a demand on its lower curve. -/
def reference (demand : LowerDemand) : EnvelopeRule Float := ⟨Envelope.canonical, demand⟩

/-- A trace that is below the lower curve at its second sample, and reaches that value later. -/
def dip : Trace Float := [⟨0.0, 0.6⟩, ⟨5.0, 0.1⟩, ⟨10.0, 0.35⟩, ⟨15.0, 0.3⟩, ⟨20.0, 0.15⟩]

theorem classify_iff_dip :
    (∃ l, (reference .eventually).envelope.lower.eval? 5.0 = some l ∧
      ∃ j, ∃ hj : j < dip.length, 1 ≤ j ∧ l ≤ dip[j].y) ∧
    ¬ ∀ i (hi : i < dip.length), ∃ l,
      (reference .pointwise).envelope.lower.eval? dip[i].x = some l ∧ l ≤ dip[i].y := by
  constructor
  · have hpositive : (reference .eventually).classify dip = true := by decide +kernel
    obtain ⟨l, hl, hlater, -⟩ := ((classify_iff _ dip).mp hpositive).2 1 (by decide)
    exact ⟨l, hl, hlater rfl⟩
  · intro h
    have hnegative : (reference .pointwise).classify dip = false := by decide +kernel
    have hupper : (reference .pointwise).belowUpper dip = true := by decide +kernel
    refine Bool.eq_false_iff.mp hnegative ((classify_iff _ dip).mpr ⟨?_, ?_⟩)
    · exact (belowUpper_iff _ dip).mp hupper
    · intro i hi
      obtain ⟨l, hl, hle⟩ := h i hi
      exact ⟨l, hl, nofun, fun _ => hle⟩

end BoundaryAtlas.EnvelopeRule
