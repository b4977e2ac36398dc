import BoundaryAtlas.Proofs.Sums
import BoundaryAtlas.Proofs.Boundary.Range
import BoundaryAtlas.Proofs.Grid.Place

/-!
# Interpolation

A boundary has a value at every time of its domain. The search for a segment ends inside the list of
points, and the segment that it finds is not vertical. In exact arithmetic the value is that of the
one function that follows the segments, and has the value after the jump at a jump.
-/

namespace BoundaryAtlas.Boundary

theorem first_eq_getElem {α : Type} (b : Boundary α) :
    b.first = b.points.get ⟨0, List.length_pos_iff.mpr b.nonempty⟩ :=
  List.head_eq_getElem b.nonempty

theorem last_eq_getElem {α : Type} (b : Boundary α) (k : ℕ) (h : k < b.points.length)
    (hlast : b.points.length ≤ k + 1) : b.last = b.points[k] := by
  have hk : k = b.points.length - 1 := by omega
  subst hk
  exact List.getLast_eq_getElem b.nonempty

/-! ## The segment at a time -/

section

variable {α : Type} [Scalar α]

/-- What is checked of the points. -/
structure IsAccepted (b : Boundary α) : Prop where
  finite : ∀ p ∈ b.points, Scalar.isFinite p.x = true
  ordered : b.points.Pairwise fun p q => p.x ≤ q.x

theorem isAccepted_of_ofPoints [Scalar.Rounded α] {points : List (Point α)} {b : Boundary α}
    (h : ofPoints points = .ok b) : b.IsAccepted := by
  unfold ofPoints at h
  split at h
  · cases h
  split at h
  · cases h
  split at h
  · cases h
  rename_i hfinite hback
  cases h
  have hfinite : ∀ p ∈ points, Scalar.isFinite p.x = true := by
    intro p hp
    simp only [List.any_eq_true, not_exists, not_and, Bool.not_eq_true', Bool.not_eq_false]
      at hfinite
    have := hfinite p hp
    rw [Point.isFinite, Bool.and_eq_true] at this
    exact this.1
  refine ⟨hfinite, ?_⟩
  have hchain : points.IsChain fun p q => p.x ≤ q.x := by
    rw [← forall_neighbours_iff]
    intro s hs
    have hmem := List.of_mem_zip hs
    apply Scalar.Comparable.le_of_not_lt
    · exact Scalar.Rounded.isNumber_of_isFinite (hfinite _ (List.mem_of_mem_tail hmem.2))
    · exact Scalar.Rounded.isNumber_of_isFinite (hfinite _ hmem.1)
    · intro hlt
      exact hback (List.any_eq_true.mpr ⟨s, hs, decide_eq_true hlt⟩)
  have : Trans (fun p q : Point α => p.x ≤ q.x) (fun p q : Point α => p.x ≤ q.x)
      (fun p q : Point α => p.x ≤ q.x) := ⟨Scalar.Comparable.trans⟩
  exact hchain.pairwise

/-- The columns are numbers, finite or not, that never go back. -/
structure IsMonotone (b : Boundary α) : Prop where
  number : ∀ p ∈ b.points, Scalar.IsNumber p.x
  ordered : b.points.Pairwise fun p q => p.x ≤ q.x

theorem IsAccepted.isMonotone [Scalar.Rounded α] {b : Boundary α} (hb : b.IsAccepted) :
    b.IsMonotone :=
  ⟨fun p hp => Scalar.Rounded.isNumber_of_isFinite (hb.finite p hp), hb.ordered⟩

theorem IsMonotone.getElem_le [Scalar.Rounded α] {b : Boundary α} (hb : b.IsMonotone) {i j : ℕ}
    (hij : i ≤ j) (hj : j < b.points.length) : b.points[i].x ≤ b.points[j].x := by
  rcases hij.eq_or_lt with rfl | hij
  · exact Scalar.Rounded.le_refl (hb.number _ (List.getElem_mem hj))
  · exact List.pairwise_iff_getElem.mp hb.ordered i j (by omega) hj hij

theorem IsMonotone.first_le [Scalar.Rounded α] {b : Boundary α} (hb : b.IsMonotone) (k : ℕ)
    (h : k < b.points.length) : b.first.x ≤ b.points[k].x := by
  rw [first_eq_getElem]
  exact hb.getElem_le (Nat.zero_le k) h

theorem IsMonotone.le_last [Scalar.Rounded α] {b : Boundary α} (hb : b.IsMonotone) (k : ℕ)
    (h : k < b.points.length) : b.points[k].x ≤ b.last.x := by
  rw [b.last_eq_getElem (b.points.length - 1) (by omega) (by omega)]
  exact hb.getElem_le (by omega) _

theorem exists_segmentPast?_eq [Scalar.Rounded α] (t : α) (l : List (Point α)) (hne : l ≠ [])
    (hord : l.Pairwise fun p q => p.x ≤ q.x) (hfirst : (l.head hne).x ≤ t)
    (hlast : ¬ (l.getLast hne).x ≤ t) :
    ∃ k, ∃ h : k + 1 < l.length, segmentPast? t l = some (l[k], l[k + 1]) ∧
      ∀ i (hi : i < l.length), l[i].x ≤ t ↔ i < k + 1 := by
  induction l with
  | nil => contradiction
  | cons p l ih =>
    cases l with
    | nil => exact absurd hfirst hlast
    | cons q l =>
      rw [List.pairwise_cons] at hord
      simp only [segmentPast?]
      by_cases hq : q.x ≤ t
      · obtain ⟨k, hk, hsegment, hsplits⟩ := ih (by simp) hord.2 hq (by simpa using hlast)
        refine ⟨k + 1, by simpa using hk, ?_, ?_⟩
        · rw [if_pos hq, hsegment]
          rfl
        · rintro (_ | i) hi
          · simpa using hfirst
          · rw [List.getElem_cons_succ, hsplits i (by simpa using hi)]
            omega
      · refine ⟨0, by simp, by rw [if_neg hq]; rfl, ?_⟩
        rintro (_ | _ | i) hi
        · simpa using hfirst
        · simpa using hq
        · simp only [List.length_cons, Nat.add_lt_add_iff_right] at hi
          have hle : q.x ≤ l[i].x := (List.pairwise_cons.mp hord.2).1 _ (List.getElem_mem hi)
          simp only [List.getElem_cons_succ]
          exact iff_of_false (fun h => hq (Scalar.Comparable.trans hle h)) (by omega)

/-! ## Values -/

/-- The slack at the ends of a domain is a positive number. -/
def HasSlack (α : Type) [Scalar α] : Prop :=
  Scalar.isFinite (domainSlack : α) = true ∧ Scalar.ofNat 0 < (domainSlack : α)

theorem IsAccepted.covers_of_mem [Scalar.Rounded α] (hslack : HasSlack α) {b : Boundary α}
    (hb : b.IsAccepted) (t : α) (hfirst : b.first.x ≤ t) (hlast : t ≤ b.last.x) :
    b.covers t = true := by
  have hfinite := hb.finite b.first (List.head_mem b.nonempty)
  have hfinite' := hb.finite b.last (List.getLast_mem b.nonempty)
  have ht := Scalar.Rounded.isFinite_of_le hfinite hfinite' hfirst hlast
  have hlo := Scalar.Rounded.not_lt_of_le (Scalar.Comparable.trans
    (Scalar.Rounded.sub_le_self hfinite hslack.1 hslack.2) hfirst)
  have hhi := Scalar.Rounded.not_lt_of_le (Scalar.Comparable.trans hlast
    (Scalar.Rounded.le_add_self hfinite' hslack.1 hslack.2))
  rw [covers, decide_eq_false hlo, decide_eq_false hhi, ht]
  rfl

theorem IsAccepted.valueAt_eq [Scalar.Rounded α] (hslack : HasSlack α) {b : Boundary α}
    (hb : b.IsAccepted) (t : α) (hfirst : b.first.x ≤ t) (hlast : t ≤ b.last.x) :
    b.valueAt t = .ok (b.valueInside t) := by
  have hclamp : Scalar.clamp t b.first.x b.last.x = t := by
    simp only [Scalar.clamp]
    rw [if_neg (Scalar.Rounded.not_lt_of_le hfirst), if_neg (Scalar.Rounded.not_lt_of_le hlast)]
  rw [valueAt_def, hb.covers_of_mem hslack t hfirst hlast, if_pos rfl, hclamp]

/-- The value at `t` is computed from the points on either side of the index `k`, which splits the
points into those up to `t` and those beyond it. The divisor is positive. -/
structure ReadsAt (b : Boundary α) (t : α) (k : ℕ) : Prop where
  pos : 1 ≤ k
  lt : k < b.points.length
  splits : ∀ i (h : i < b.points.length), b.points[i].x ≤ t ↔ i < k
  value : b.valueAt t = .ok (interpolate b.points[k - 1] b.points[k] t)
  divisor : Scalar.ofNat 0 < b.points[k].x - b.points[k - 1].x

theorem IsAccepted.exists_readsAt [Scalar.Rounded α] (hslack : HasSlack α) {b : Boundary α}
    (hb : b.IsAccepted) (t : α) (hfirst : b.first.x ≤ t) (hlast : t ≤ b.last.x)
    (hne : ¬ b.last.x ≤ t) : ∃ k, b.ReadsAt t k := by
  obtain ⟨k, hk, hsegment, hsplits⟩ :=
    exists_segmentPast?_eq t b.points b.nonempty hb.ordered hfirst hne
  have hvalue : b.valueAt t = .ok (interpolate b.points[k] b.points[k + 1] t) := by
    rw [hb.valueAt_eq hslack t hfirst hlast, valueInside, if_neg hne, hsegment]
  have hleft : b.points[k].x ≤ t := (hsplits k (by omega)).mpr (by omega)
  have hright : ¬ b.points[k + 1].x ≤ t := fun h => absurd ((hsplits (k + 1) hk).mp h) (by omega)
  have hfinite := hb.finite _ (List.getElem_mem (by omega : k < b.points.length))
  have hfinite' := hb.finite _ (List.getElem_mem hk)
  refine ⟨k + 1, ⟨by omega, hk, hsplits, hvalue, Scalar.Rounded.sub_pos hfinite hfinite' ?_⟩⟩
  by_contra hlt
  have hle := Scalar.Comparable.le_of_not_lt (Scalar.Rounded.isNumber_of_isFinite hfinite)
    (Scalar.Rounded.isNumber_of_isFinite hfinite') hlt
  exact hright (Scalar.Comparable.trans hle hleft)

/-- A time that is not finite is refused. At a time of the domain the value is that of the last
point, or it is computed from two points of the list. -/
def IsWellDefined (b : Boundary α) : Prop :=
  ∀ t, (Scalar.isFinite t = false →
      b.valueAt t = .error (.outsideDomain t b.first.x b.last.x)) ∧
    (b.first.x ≤ t → t ≤ b.last.x →
      (b.last.x ≤ t ∧ b.valueAt t = .ok b.last.y) ∨ ∃ k, b.ReadsAt t k)

theorem IsAccepted.isWellDefined [Scalar.Rounded α] (hslack : HasSlack α) {b : Boundary α}
    (hb : b.IsAccepted) : b.IsWellDefined := by
  intro t
  constructor
  · intro hinfinite
    rw [valueAt_def, covers, hinfinite]
    simp
  · intro hfirst hlast
    by_cases hend : b.last.x ≤ t
    · left
      refine ⟨hend, ?_⟩
      rw [hb.valueAt_eq hslack t hfirst hlast, valueInside, if_pos hend]
    · exact .inr (hb.exists_readsAt hslack t hfirst hlast hend)

end

theorem hasSlack_float : HasSlack Float := ⟨by decide, by decide⟩

/-! ## Exact arithmetic -/

variable {α : Type} [ExactScalar α]

theorem domainSlack_eq : (domainSlack : α) = 1 / 10 ^ 9 := by
  rw [domainSlack, ExactScalar.ofDecimal_eq, Nat.cast_one]

theorem hasSlack_exact : HasSlack α := by
  refine ⟨ExactScalar.isFinite_eq _, ?_⟩
  rw [ExactScalar.ofNat_eq, Nat.cast_zero, domainSlack_eq]
  positivity

/-- A function that agrees with each segment up to its right end, and at the end of the boundary
with the last point. -/
structure Follows (b : Boundary α) (f : α → α) : Prop where
  last : f b.last.x = b.last.y
  chord : ∀ k (h : k + 1 < b.points.length), ∀ t, b.points[k].x ≤ t → t < b.points[k + 1].x →
    ⟨t, f t⟩ ∈ Point.segment b.points[k] b.points[k + 1]

theorem IsAccepted.mem_domain {b : Boundary α} (hb : b.IsAccepted) (k : ℕ)
    (h : k + 1 < b.points.length) (t : α) (hleft : b.points[k].x ≤ t)
    (hright : t < b.points[k + 1].x) : t ∈ b.domain :=
  ⟨(hb.isMonotone.first_le k (by omega)).trans hleft,
    hright.le.trans (hb.isMonotone.le_last (k + 1) h)⟩

theorem IsAccepted.valueInside_eq {b : Boundary α} (hb : b.IsAccepted) (k : ℕ)
    (h : k + 1 < b.points.length) (t : α) (hleft : b.points[k].x ≤ t)
    (hright : t < b.points[k + 1].x) :
    b.valueInside t = interpolate b.points[k] b.points[k + 1] t := by
  have hne : ¬ b.last.x ≤ t := (hright.trans_le (hb.isMonotone.le_last (k + 1) h)).not_ge
  obtain ⟨k', hk', hsegment, hsplits⟩ := exists_segmentPast?_eq t b.points b.nonempty hb.ordered
    (hb.mem_domain k h t hleft hright).1 hne
  have hle := (hsplits k (by omega)).mp hleft
  have hge := mt (hsplits (k + 1) h).mpr hright.not_ge
  obtain rfl : k' = k := by omega
  rw [valueInside, if_neg hne, hsegment]

theorem IsAccepted.follows_valueInside {b : Boundary α} (hb : b.IsAccepted) :
    b.Follows b.valueInside where
  last := by rw [valueInside, if_pos (le_refl _)]
  chord k h t hleft hright := by
    rw [hb.valueInside_eq k h t hleft hright]
    exact interpolate_mem_segment _ _ t hleft hright

theorem IsAccepted.exists_between {b : Boundary α} (hb : b.IsAccepted) (t : α)
    (hfirst : b.first.x ≤ t) (hlast : t < b.last.x) :
    ∃ k, ∃ h : k + 1 < b.points.length, b.points[k].x ≤ t ∧ t < b.points[k + 1].x := by
  obtain ⟨k, hk, -, hsplits⟩ :=
    exists_segmentPast?_eq t b.points b.nonempty hb.ordered hfirst hlast.not_ge
  refine ⟨k, hk, (hsplits k (by omega)).mpr (by omega), not_le.mp fun h => ?_⟩
  exact absurd ((hsplits (k + 1) hk).mp h) (by omega)

theorem Follows.eq {b : Boundary α} (hb : b.IsAccepted) {f g : α → α} (hf : b.Follows f)
    (hg : b.Follows g) (t : α) (ht : t ∈ b.domain) : f t = g t := by
  obtain ⟨hfirst, hlast⟩ := (b.mem_domain_iff t).mp ht
  rcases hlast.eq_or_lt with rfl | hlast
  · rw [hf.last, hg.last]
  · obtain ⟨k, h, hleft, hright⟩ := hb.exists_between t hfirst hlast
    have heq := Point.eq_of_x_eq (hleft.trans_lt hright) (hf.chord k h t hleft hright)
      (hg.chord k h t hleft hright) rfl
    exact congrArg Point.y heq

/-- A function whose values just after `t` are near to its value at `t`. -/
def IsContinuousAfter (f : α → α) (t : α) : Prop :=
  ∀ ε > 0, ∃ δ > 0, ∀ u, t ≤ u → u < t + δ → |f u - f t| < ε

theorem isContinuousAfter_of_line (f : α → α) (t e m : α) (hlater : t < e)
    (hline : ∀ u, t ≤ u → u < e → f u - f t = m * (u - t)) : IsContinuousAfter f t := by
  intro ε hε
  have hm : 0 < |m| + 1 := by positivity
  refine ⟨min (e - t) (ε / (|m| + 1)), lt_min (sub_pos.mpr hlater) (div_pos hε hm), ?_⟩
  intro u hu hnear
  rw [← sub_lt_iff_lt_add', lt_min_iff] at hnear
  obtain ⟨hend, hnear⟩ := hnear
  have hsteep : |m| * (u - t) ≤ (|m| + 1) * (u - t) :=
    mul_le_mul_of_nonneg_right (le_add_of_nonneg_right zero_le_one) (sub_nonneg.mpr hu)
  calc |f u - f t| = |m| * (u - t) := by
        rw [hline u hu (by linarith), abs_mul, abs_of_nonneg (sub_nonneg.mpr hu)]
    _ ≤ (|m| + 1) * (u - t) := hsteep
    _ < (|m| + 1) * (ε / (|m| + 1)) := mul_lt_mul_of_pos_left hnear hm
    _ = ε := mul_div_cancel₀ ε hm.ne'

theorem Follows.isContinuousAfter {b : Boundary α} (hb : b.IsAccepted) {f : α → α}
    (hf : b.Follows f) (t : α) (hfirst : b.first.x ≤ t) (hlast : t < b.last.x) :
    IsContinuousAfter f t := by
  obtain ⟨k, h, hleft, hright⟩ := hb.exists_between t hfirst hlast
  have hline : ∀ u, t ≤ u → u < b.points[k + 1].x →
      f u = b.points[k].y + Point.steepness b.points[k] b.points[k + 1] * (u - b.points[k].x) :=
    fun u hu hend => ((Point.mem_segment_iff_of_lt (hleft.trans_lt hright)).mp
      (hf.chord k h u (hleft.trans hu) hend)).2.2
  refine isContinuousAfter_of_line f t _ (Point.steepness b.points[k] b.points[k + 1]) hright ?_
  intro u hu hend
  rw [hline u hu hend, hline t (le_refl t) hright]
  ring

/-! ## Times just outside -/

theorem covers_iff (b : Boundary α) (t : α) :
    b.covers t = true ↔ b.first.x - 1 / 10 ^ 9 ≤ t ∧ t ≤ b.last.x + 1 / 10 ^ 9 := by
  rw [covers, domainSlack_eq, ExactScalar.isFinite_eq, Bool.not_true, Bool.or_false,
    Bool.not_eq_true', Bool.or_eq_false_iff, decide_eq_false_iff_not, decide_eq_false_iff_not,
    not_lt, not_lt]

theorem IsAccepted.first_le_last {b : Boundary α} (hb : b.IsAccepted) : b.first.x ≤ b.last.x := by
  rw [first_eq_getElem]
  exact hb.isMonotone.le_last 0 _

theorem IsAccepted.valueAt_clamp {b : Boundary α} (hb : b.IsAccepted) (t : α)
    (h : b.covers t = true) :
    b.valueAt t = b.valueAt (min (max t b.first.x) b.last.x) := by
  have hmem : min (max t b.first.x) b.last.x ∈ b.domain :=
    ⟨le_min (le_max_right _ _) hb.first_le_last, min_le_right _ _⟩
  rw [b.valueAt_of_mem _ hmem, valueAt_def, h, ExactScalar.clamp_eq, if_pos rfl]

theorem IsAccepted.valueAt_before {b : Boundary α} (hb : b.IsAccepted) (t : α)
    (hslack : b.first.x - 1 / 10 ^ 9 ≤ t) (ht : t ≤ b.first.x) :
    b.valueAt t = b.valueAt b.first.x := by
  have hnear : t ≤ b.last.x + 1 / 10 ^ 9 :=
    (ht.trans hb.first_le_last).trans (le_add_of_nonneg_right (by positivity))
  rw [hb.valueAt_clamp t ((b.covers_iff t).mpr ⟨hslack, hnear⟩), max_eq_right ht,
    min_eq_left hb.first_le_last]

theorem IsAccepted.valueAt_after {b : Boundary α} (hb : b.IsAccepted) (t : α)
    (ht : b.last.x ≤ t) (hslack : t ≤ b.last.x + 1 / 10 ^ 9) :
    b.valueAt t = b.valueAt b.last.x := by
  have hnear : b.first.x - 1 / 10 ^ 9 ≤ t :=
    (sub_le_self _ (by positivity)).trans (hb.first_le_last.trans ht)
  rw [hb.valueAt_clamp t ((b.covers_iff t).mpr ⟨hnear, hslack⟩),
    max_eq_left (hb.first_le_last.trans ht), min_eq_right ht]

theorem valueAt_outside (b : Boundary α) (t : α)
    (h : t < b.first.x - 1 / 10 ^ 9 ∨ b.last.x + 1 / 10 ^ 9 < t) :
    b.valueAt t = .error (.outsideDomain t b.first.x b.last.x) := by
  have hcovers : ¬ b.covers t = true := by
    rw [covers_iff, not_and_or, not_le, not_le]
    exact h
  rw [valueAt_def, if_neg hcovers]

/-! ## The value at a column -/

theorem IsAccepted.valueAt_column {b : Boundary α} (hb : b.IsAccepted) (k : ℕ)
    (h : k < b.points.length)
    (hcolumn : ∀ j (hj : j < b.points.length), k < j → b.points[k].x < b.points[j].x) :
    b.valueAt b.points[k].x = .ok b.points[k].y := by
  rw [b.valueAt_of_mem _ ⟨hb.isMonotone.first_le k h, hb.isMonotone.le_last k h⟩]
  by_cases hlast : b.points.length ≤ k + 1
  · rw [← b.last_eq_getElem k h hlast, hb.follows_valueInside.last]
  · have hnext := hcolumn (k + 1) (by omega) (by omega)
    have hmem := hb.follows_valueInside.chord k (by omega) _ (le_refl _) hnext
    have heq := Point.eq_of_x_eq hnext hmem (Point.left_mem_segment _ _) rfl
    exact congrArg Except.ok (congrArg Point.y heq)

theorem IsAccepted.valueAt_between {b : Boundary α} (hb : b.IsAccepted) (k : ℕ)
    (h : k + 1 < b.points.length) (t : α) (hleft : b.points[k].x ≤ t)
    (hright : t < b.points[k + 1].x) :
    ∃ v, b.valueAt t = .ok v ∧ min b.points[k].y b.points[k + 1].y ≤ v ∧
      v ≤ max b.points[k].y b.points[k + 1].y := by
  refine ⟨b.valueInside t, b.valueAt_of_mem t (hb.mem_domain k h t hleft hright), ?_⟩
  exact Point.y_mem_of_mem_segment ⟨_, _⟩ _ _ _
    (hb.follows_valueInside.chord k h t hleft hright)
    ⟨min_le_left _ _, le_max_left _ _⟩ ⟨min_le_right _ _, le_max_right _ _⟩

/-- **Interpolation.** An accepted boundary has a value at every time of its domain: the points are
read inside the list, and the divisor is positive. In exact arithmetic the value is that of the one
function that follows the segments, which is continuous to the right. At a column it is the `y` of
the last point there, and between two points it is between theirs. Just outside the domain the value
is that at the nearer end, and further out there is none. -/
theorem valueAt_follows (points : List (Point α)) (b : Boundary α) (hb : ofPoints points = .ok b)
    (floats : List (Point Float)) (c : Boundary Float) (hc : ofPoints floats = .ok c) :
    c.IsWellDefined ∧ b.IsWellDefined ∧
      (∃ f, b.Follows f ∧ (∀ g, b.Follows g → ∀ t ∈ b.domain, g t = f t) ∧
        (∀ t ∈ b.domain, b.valueAt t = .ok (f t)) ∧
        ∀ t ∈ b.domain, t < b.last.x → IsContinuousAfter f t) ∧
      (∀ k (h : k < b.points.length),
        (∀ j (hj : j < b.points.length), k < j → b.points[k].x < b.points[j].x) →
          b.valueAt b.points[k].x = .ok b.points[k].y) ∧
      (∀ k (h : k + 1 < b.points.length) (t : α), b.points[k].x ≤ t → t < b.points[k + 1].x →
        ∃ v, b.valueAt t = .ok v ∧ min b.points[k].y b.points[k + 1].y ≤ v ∧
          v ≤ max b.points[k].y b.points[k + 1].y) ∧
      (∀ t, b.first.x - 1 / 10 ^ 9 ≤ t → t ≤ b.first.x → b.valueAt t = b.valueAt b.first.x) ∧
      (∀ t, b.last.x ≤ t → t ≤ b.last.x + 1 / 10 ^ 9 → b.valueAt t = b.valueAt b.last.x) ∧
      ∀ t, t < b.first.x - 1 / 10 ^ 9 ∨ b.last.x + 1 / 10 ^ 9 < t →
        b.valueAt t = .error (.outsideDomain t b.first.x b.last.x) := by
  have hb := isAccepted_of_ofPoints hb
  have hc := isAccepted_of_ofPoints hc
  have hfollows := hb.follows_valueInside
  refine ⟨hc.isWellDefined hasSlack_float, hb.isWellDefined hasSlack_exact,
    ⟨b.valueInside, hfollows, fun g hg t ht => hg.eq hb hfollows t ht, b.valueAt_of_mem,
      fun t ht hlast => hfollows.isContinuousAfter hb t ht.1 hlast⟩,
    hb.valueAt_column, hb.valueAt_between, hb.valueAt_before, hb.valueAt_after,
    b.valueAt_outside⟩

/-- A boundary that rises, falls back at a column and then stays level. -/
def fall (α : Type) [Scalar α] : Boundary α where
  points := [⟨Scalar.ofNat 0, Scalar.ofNat 0⟩, ⟨Scalar.ofNat 10, Scalar.ofNat 1⟩,
    ⟨Scalar.ofNat 10, Scalar.ofDecimal 5 1⟩, ⟨Scalar.ofNat 20, Scalar.ofDecimal 5 1⟩]
  nonempty := by simp

theorem ofPoints_fall : ofPoints (fall ℚ).points = .ok (fall ℚ) := by decide +kernel

theorem ofPoints_fall_float : ofPoints (fall Float).points = .ok (fall Float) := by rfl

theorem valueAt_follows_fall :
    ofPoints (fall ℚ).points = .ok (fall ℚ) ∧ ofPoints (fall Float).points = .ok (fall Float) ∧
      (fall Float).IsWellDefined ∧ (fall ℚ).valueAt 10 = .ok (1 / 2) := by
  have h := valueAt_follows _ _ ofPoints_fall _ _ ofPoints_fall_float
  have hx : (fall ℚ).points[2].x = 10 := by decide +kernel
  have hy : (fall ℚ).points[2].y = 1 / 2 := by decide +kernel
  refine ⟨ofPoints_fall, ofPoints_fall_float, h.1, ?_⟩
  rw [← hx, ← hy]
  exact h.2.2.2.1 2 (by decide) (by decide +kernel)

end BoundaryAtlas.Boundary
