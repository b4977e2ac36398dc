import BoundaryAtlas.Proofs.Boundary.Interpolation

/-!
# Values beyond the ends

Every finite time has an extended value. Where a boundary has a value, the extended value is the
same. Beyond the ends the search for a segment ends inside the list of points, and the values are on
a line that goes on from the value at the end.
-/

namespace BoundaryAtlas

namespace Boundary

section

variable {α : Type} [Scalar α]

/-- The slack makes no number undefined. -/
def SlackKeepsNumbers (α : Type) [Scalar α] : Prop :=
  ∀ a : α, Scalar.IsNumber a →
    Scalar.IsNumber (a - domainSlack) ∧ Scalar.IsNumber (a + domainSlack)

variable [Scalar.Rounded α]

/-! ## Times with a value -/

theorem covers_iff_within_slack (hslack : SlackKeepsNumbers α) {b : Boundary α}
    (hb : b.IsMonotone) (t : α) (ht : Scalar.isFinite t = true) :
    b.covers t = true ↔ b.first.x - domainSlack ≤ t ∧ t ≤ b.last.x + domainSlack := by
  have hnumber := Scalar.Rounded.isNumber_of_isFinite ht
  have hfirst := (hslack _ (hb.number _ (List.head_mem b.nonempty))).1
  have hlast := (hslack _ (hb.number _ (List.getLast_mem b.nonempty))).2
  simp only [covers, ht, Bool.not_true, Bool.or_false, Bool.not_eq_true', Bool.or_eq_false_iff,
    decide_eq_false_iff_not]
  constructor
  · rintro ⟨hlo, hhi⟩
    exact ⟨Scalar.Comparable.le_of_not_lt hnumber hfirst hlo,
      Scalar.Comparable.le_of_not_lt hlast hnumber hhi⟩
  · rintro ⟨hlo, hhi⟩
    exact ⟨Scalar.Rounded.not_lt_of_le hlo, Scalar.Rounded.not_lt_of_le hhi⟩

omit [Scalar.Rounded α] in
theorem isFinite_of_covers (b : Boundary α) (t : α) (h : b.covers t = true) :
    Scalar.isFinite t = true := by
  unfold covers at h
  simp_all

theorem IsMonotone.extendedValueAt_eq (hslack : SlackKeepsNumbers α) {b : Boundary α}
    (hb : b.IsMonotone) (t : α) (ht : Scalar.isFinite t = true) :
    b.extendedValueAt t =
      if b.covers t then b.valueAt t
      else if t < b.first.x then .ok (b.valueBefore t) else .ok (b.valueAfter t) := by
  rw [extendedValueAt_def]
  simp only [ht, Bool.not_true, Bool.false_eq_true, if_false,
    covers_iff_within_slack hslack hb t ht]

theorem IsMonotone.extendedValueAt_of_valueAt (hslack : SlackKeepsNumbers α) {b : Boundary α}
    (hb : b.IsMonotone) (t v : α) (h : b.valueAt t = .ok v) : b.extendedValueAt t = .ok v := by
  have hcovers : b.covers t = true := by
    rw [valueAt_def] at h
    by_contra hcovers
    simp [hcovers] at h
  rw [hb.extendedValueAt_eq hslack t (b.isFinite_of_covers t hcovers), if_pos hcovers, h]

theorem IsMonotone.extendedValueAt_of_no_value (hslack : SlackKeepsNumbers α) {b : Boundary α}
    (hb : b.IsMonotone) (t : α) (ht : Scalar.isFinite t = true) (h : ∀ v, b.valueAt t ≠ .ok v) :
    b.extendedValueAt t =
      if t < b.first.x then .ok (b.valueBefore t) else .ok (b.valueAfter t) := by
  have hcovers : ¬ b.covers t = true := by
    intro hcovers
    apply h
    rw [valueAt_def, if_pos hcovers]
  rw [hb.extendedValueAt_eq hslack t ht, if_neg hcovers]

theorem IsMonotone.exists_extendedValueAt (hslack : SlackKeepsNumbers α) {b : Boundary α}
    (hb : b.IsMonotone) (t : α) (ht : Scalar.isFinite t = true) :
    ∃ v, b.extendedValueAt t = .ok v := by
  rw [hb.extendedValueAt_eq hslack t ht]
  split
  · rename_i hcovers
    rw [valueAt_def, if_pos hcovers]
    exact ⟨_, rfl⟩
  · split <;> exact ⟨_, rfl⟩

/-! ## The outer segments -/

omit [Scalar.Rounded α] in
theorem segmentPast?_eq_none_of_le (t : α) (l : List (Point α)) (h : ∀ p ∈ l, p.x ≤ t) :
    segmentPast? t l = none := by
  induction l with
  | nil => rfl
  | cons p l ih =>
    cases l with
    | nil => rfl
    | cons q l =>
      rw [segmentPast?, if_pos (h q (by simp))]
      exact ih fun r hr => h r (List.mem_cons_of_mem p hr)

omit [Scalar.Rounded α] in
theorem segmentBefore?_eq_none_of_not_lt (t : α) (l : List (Point α)) (h : ∀ p ∈ l, ¬ p.x < t) :
    segmentBefore? t l = none := by
  induction l with
  | nil => rfl
  | cons p l ih =>
    cases l with
    | nil => rfl
    | cons q l =>
      rw [segmentBefore?, ih fun r hr => h r (List.mem_cons_of_mem p hr)]
      exact if_neg (h p (by simp))

theorem exists_segmentBefore?_eq (t : α) (ht : Scalar.IsNumber t) (l : List (Point α))
    (hne : l ≠ []) (hord : l.Pairwise fun p q => p.x ≤ q.x) (hfirst : (l.head hne).x < t)
    (hlast : ¬ (l.getLast hne).x < t) :
    ∃ k, ∃ (_ : k < l.length) (_ : k + 1 < l.length),
      segmentBefore? t l = some (l[k], l[k + 1]) ∧
        ∀ i (hi : i < l.length), l[i].x < t ↔ i ≤ k := by
  induction l with
  | nil => contradiction
  | cons p l ih =>
    cases l with
    | nil => exact absurd hfirst hlast
    | cons q l =>
      rw [List.pairwise_cons] at hord
      by_cases hq : q.x < t
      · obtain ⟨k, hk, hnext, hsegment, hsplits⟩ := ih (by simp) hord.2 hq (by simpa using hlast)
        refine ⟨k + 1, by simpa using hk, by simpa using hnext, ?_, ?_⟩
        · rw [segmentBefore?, hsegment]
          rfl
        · rintro (_ | i) hi
          · simpa using hfirst
          · rw [List.getElem_cons_succ, hsplits i (by simpa using hi)]
            omega
      · -- No point from `q` on is left of `t`, since `q` is not.
        have hright : ∀ r ∈ q :: l, ¬ r.x < t := by
          intro r hr hrt
          rcases List.mem_cons.mp hr with rfl | hr
          · exact hq hrt
          · exact hq (Scalar.Rounded.lt_of_le_of_lt ht ((List.pairwise_cons.mp hord.2).1 r hr) hrt)
        refine ⟨0, by simp, by simp, ?_, ?_⟩
        · rw [segmentBefore?, segmentBefore?_eq_none_of_not_lt t _ hright]
          exact if_pos hfirst
        · rintro (_ | i) hi
          · simpa using hfirst
          · rw [List.getElem_cons_succ]
            exact iff_of_false (hright _ (List.getElem_mem _)) (by omega)

/-- The value at `t` is on the line through the points at `k` and `k + 1`, of which the left one is
the last of the first column. -/
structure ReadsBefore (b : Boundary α) (t : α) (k : ℕ) : Prop where
  lt : k < b.points.length
  next : k + 1 < b.points.length
  splits : ∀ i (h : i < b.points.length), b.points[i].x ≤ b.first.x ↔ i ≤ k
  value : b.extendedValueAt t = .ok (onLine b.points[k] b.points[k + 1] b.points[k] t)

/-- The value at `t` goes on from the last point as steep as the segment from `k` to `k + 1`, of
which the right end is the first point of the last column. -/
structure ReadsAfter (b : Boundary α) (t : α) (k : ℕ) : Prop where
  lt : k < b.points.length
  next : k + 1 < b.points.length
  splits : ∀ i (h : i < b.points.length), b.points[i].x < b.last.x ↔ i ≤ k
  value : b.extendedValueAt t = .ok (onLine b.points[k] b.points[k + 1] b.last t)

/-- All points are in one column. -/
def IsColumn (b : Boundary α) : Prop := b.last.x ≤ b.first.x

/-- A value beyond the ends is read inside the list of points. -/
def ReadsBeyond (b : Boundary α) (t : α) : Prop :=
  (b.IsColumn ∧ b.extendedValueAt t = .ok b.last.y) ∨
    (t < b.first.x ∧ ∃ k, b.ReadsBefore t k) ∨ (¬ t < b.first.x ∧ ∃ k, b.ReadsAfter t k)

theorem IsMonotone.isColumn_or_lt {b : Boundary α} (hb : b.IsMonotone) :
    b.IsColumn ∨ b.first.x < b.last.x := by
  by_cases h : b.first.x < b.last.x
  · exact .inr h
  · exact .inl (Scalar.Comparable.le_of_not_lt (hb.number _ (List.head_mem b.nonempty))
      (hb.number _ (List.getLast_mem b.nonempty)) h)

theorem IsMonotone.valueBefore_of_isColumn {b : Boundary α} (hb : b.IsMonotone)
    (hcolumn : b.IsColumn) (t : α) : b.valueBefore t = b.last.y := by
  have hle : ∀ p ∈ b.points, p.x ≤ b.first.x := by
    intro p hp
    obtain ⟨i, hi, rfl⟩ := List.getElem_of_mem hp
    exact Scalar.Comparable.trans (hb.le_last i hi) hcolumn
  rw [valueBefore, segmentPast?_eq_none_of_le b.first.x b.points hle]

theorem IsMonotone.valueAfter_of_isColumn {b : Boundary α} (hb : b.IsMonotone)
    (hcolumn : b.IsColumn) (t : α) : b.valueAfter t = b.last.y := by
  have hge : ∀ p ∈ b.points, ¬ p.x < b.last.x := by
    intro p hp
    obtain ⟨i, hi, rfl⟩ := List.getElem_of_mem hp
    exact Scalar.Rounded.not_lt_of_le (Scalar.Comparable.trans hcolumn (hb.first_le i hi))
  rw [valueAfter, segmentBefore?_eq_none_of_not_lt b.last.x b.points hge]

theorem IsMonotone.exists_readsBefore {b : Boundary α} (hb : b.IsMonotone)
    (hlt : b.first.x < b.last.x) (t : α) (h : b.extendedValueAt t = .ok (b.valueBefore t)) :
    ∃ k, b.ReadsBefore t k := by
  have hfirst := Scalar.Rounded.le_refl (hb.number _ (List.head_mem b.nonempty))
  have hlast : ¬ b.last.x ≤ b.first.x := fun hle => Scalar.Rounded.not_lt_of_le hle hlt
  obtain ⟨k, hk, hsegment, hsplits⟩ :=
    exists_segmentPast?_eq b.first.x b.points b.nonempty hb.ordered hfirst hlast
  refine ⟨k, by omega, hk, fun i hi => (hsplits i hi).trans Nat.lt_succ_iff, ?_⟩
  rw [h, valueBefore, hsegment]

theorem IsMonotone.exists_readsAfter {b : Boundary α} (hb : b.IsMonotone)
    (hlt : b.first.x < b.last.x) (t : α) (h : b.extendedValueAt t = .ok (b.valueAfter t)) :
    ∃ k, b.ReadsAfter t k := by
  have hnumber := hb.number _ (List.getLast_mem b.nonempty)
  have hlast := Scalar.Rounded.not_lt_of_le (Scalar.Rounded.le_refl hnumber)
  obtain ⟨k, hk, hnext, hsegment, hsplits⟩ :=
    exists_segmentBefore?_eq b.last.x hnumber b.points b.nonempty hb.ordered hlt hlast
  refine ⟨k, hk, hnext, hsplits, ?_⟩
  rw [h, valueAfter, hsegment]

theorem IsMonotone.readsBeyond (hslack : SlackKeepsNumbers α) {b : Boundary α}
    (hb : b.IsMonotone) (t : α) (ht : Scalar.isFinite t = true) (h : ∀ v, b.valueAt t ≠ .ok v) :
    b.ReadsBeyond t := by
  have hvalue := hb.extendedValueAt_of_no_value hslack t ht h
  rcases hb.isColumn_or_lt with hcolumn | hlt
  · left
    rw [hb.valueBefore_of_isColumn hcolumn, hb.valueAfter_of_isColumn hcolumn, ite_self] at hvalue
    exact ⟨hcolumn, hvalue⟩
  · right
    split at hvalue
    · exact .inl ⟨by assumption, hb.exists_readsBefore hlt t hvalue⟩
    · exact .inr ⟨by assumption, hb.exists_readsAfter hlt t hvalue⟩

/-- The extended value is the value where there is one. -/
def KeepsValues (b : Boundary α) : Prop :=
  ∀ t v, b.valueAt t = .ok v → b.extendedValueAt t = .ok v

/-- Every finite time has an extended value, and the values are kept. -/
structure ExtendsSafely (b : Boundary α) : Prop where
  keeps : b.KeepsValues
  total : ∀ t, Scalar.isFinite t = true → ∃ v, b.extendedValueAt t = .ok v
  reads : ∀ t, Scalar.isFinite t = true → (∀ v, b.valueAt t ≠ .ok v) → b.ReadsBeyond t

theorem IsMonotone.extendsSafely (hslack : SlackKeepsNumbers α) {b : Boundary α}
    (hb : b.IsMonotone) : b.ExtendsSafely :=
  ⟨hb.extendedValueAt_of_valueAt hslack, hb.exists_extendedValueAt hslack, hb.readsBeyond hslack⟩

end

theorem slackKeepsNumbers_float : SlackKeepsNumbers Float :=
  fun _ ha => Binary.isNumber_add_sub ha hasSlack_float.1

/-! ## Exact arithmetic -/

variable {α : Type} [ExactScalar α]

theorem isNumber_exact (a : α) : Scalar.IsNumber a := by simp [Scalar.IsNumber]

theorem slackKeepsNumbers_exact : SlackKeepsNumbers α :=
  fun _ _ => ⟨isNumber_exact _, isNumber_exact _⟩

theorem IsMonotone.isAccepted {b : Boundary α} (hb : b.IsMonotone) : b.IsAccepted :=
  ⟨fun p _ => ExactScalar.finite p.x, hb.ordered⟩

/-- The segments that are not vertical, from left to right. -/
def slanted (b : Boundary α) : List (Point α × Point α) :=
  (neighbours b.points).filter fun s => s.1.x < s.2.x

/-- The slope of the first segment that is not vertical. -/
def firstSlope? (b : Boundary α) : Option α :=
  b.slanted.head?.map fun s => Point.steepness s.1 s.2

/-- The slope of the last segment that is not vertical. -/
def lastSlope? (b : Boundary α) : Option α :=
  b.slanted.getLast?.map fun s => Point.steepness s.1 s.2

theorem head?_slanted (b : Boundary α) (k : ℕ) (hk : k < b.points.length)
    (h : k + 1 < b.points.length) (hlt : b.points[k].x < b.points[k + 1].x)
    (hbefore : ∀ j (_ : j < k), ¬ b.points[j].x < b.points[j + 1].x) :
    b.slanted.head? = some (b.points[k], b.points[k + 1]) := by
  have hmem : k < (neighbours b.points).length := by rw [length_neighbours]; omega
  rw [slanted, List.head?_filter, List.find?_eq_some_iff_getElem]
  refine ⟨decide_eq_true hlt, k, hmem, getElem_neighbours _ k hmem h, fun j hj => ?_⟩
  rw [getElem_neighbours _ j (by omega) (by omega), Bool.not_eq_true', decide_eq_false_iff_not]
  exact hbefore j hj

theorem getLast?_slanted (b : Boundary α) (k : ℕ) (hk : k < b.points.length)
    (h : k + 1 < b.points.length) (hlt : b.points[k].x < b.points[k + 1].x)
    (hafter : ∀ j (_ : j < b.points.length) (_ : j + 1 < b.points.length), k < j →
      ¬ b.points[j].x < b.points[j + 1].x) :
    b.slanted.getLast? = some (b.points[k], b.points[k + 1]) := by
  have hlength := length_neighbours b.points
  rw [slanted, List.getLast?_eq_head?_reverse, ← List.filter_reverse, List.head?_filter,
    List.find?_eq_some_iff_getElem]
  refine ⟨decide_eq_true hlt, b.points.length - 2 - k, ?_, ?_, fun j hj => ?_⟩
  · rw [List.length_reverse]
    omega
  · rw [List.getElem_reverse]
    have hindex : (neighbours b.points).length - 1 - (b.points.length - 2 - k) = k := by omega
    simp only [hindex]
    exact getElem_neighbours _ k _ h
  · rw [List.getElem_reverse, getElem_neighbours _ _ _ (by omega), Bool.not_eq_true',
      decide_eq_false_iff_not]
    exact hafter _ (by omega) (by omega) (by omega)

theorem IsAccepted.slanted_of_isColumn {b : Boundary α} (hb : b.IsAccepted) (h : b.IsColumn) :
    b.slanted = [] := by
  rw [slanted, List.filter_eq_nil_iff]
  intro s hs
  obtain ⟨j, hj, rfl⟩ := List.getElem_of_mem hs
  rw [length_neighbours] at hj
  rw [getElem_neighbours _ j _ (by omega), decide_eq_true_eq, not_lt]
  exact (hb.isMonotone.le_last (j + 1) (by omega)).trans
    (le_trans h (hb.isMonotone.first_le j (by omega)))

/-- The value at `t` goes on from the one at the end `x` with the given slope. Without a slope it is
that of the last point. -/
def GoesOn (b : Boundary α) (x : α) (slope? : Option α) (t : α) : Prop :=
  ∃ v, b.valueAt x = .ok v ∧
    b.extendedValueAt t = .ok (slope?.elim b.last.y fun m => v + m * (t - x))

theorem IsAccepted.valueAt_last {b : Boundary α} (hb : b.IsAccepted) :
    b.valueAt b.last.x = .ok b.last.y := by
  rw [b.valueAt_of_mem _ ⟨hb.first_le_last, le_refl _⟩, hb.follows_valueInside.last]

theorem ReadsBefore.goesOn {b : Boundary α} (hb : b.IsAccepted) {t : α} {k : ℕ}
    (h : b.ReadsBefore t k) : b.GoesOn b.first.x b.firstSlope? t := by
  obtain ⟨hk, hnext, hsplits, hvalue⟩ := h
  have hcolumn : ∀ j (hj : j ≤ k), b.points[j].x = b.first.x := fun j hj =>
    le_antisymm ((hsplits j (by omega)).mpr hj) (hb.isMonotone.first_le j (by omega))
  have hright : ∀ j (_ : j < b.points.length), k < j → b.first.x < b.points[j].x :=
    fun j hj hkj => not_le.mp fun hle => absurd ((hsplits j hj).mp hle) (by omega)
  have hslope : b.firstSlope? = some (Point.steepness b.points[k] b.points[k + 1]) := by
    rw [firstSlope?, b.head?_slanted k hk hnext, Option.map_some]
    · rw [hcolumn k (le_refl k)]
      exact hright (k + 1) hnext (by omega)
    · intro j hj
      rw [hcolumn j (by omega), hcolumn (j + 1) (by omega)]
      exact lt_irrefl _
  refine ⟨b.points[k].y, ?_, ?_⟩
  · rw [← hcolumn k (le_refl k)]
    refine hb.valueAt_column k hk fun j hj hkj => ?_
    rw [hcolumn k (le_refl k)]
    exact hright j hj hkj
  · rw [hvalue, hslope, onLine_eq, hcolumn k (le_refl k)]
    rfl

theorem ReadsAfter.goesOn {b : Boundary α} (hb : b.IsAccepted) {t : α} {k : ℕ}
    (h : b.ReadsAfter t k) : b.GoesOn b.last.x b.lastSlope? t := by
  obtain ⟨hk, hnext, hsplits, hvalue⟩ := h
  have hcolumn : ∀ j (_ : j < b.points.length), k < j → b.points[j].x = b.last.x :=
    fun j hj hkj => le_antisymm (hb.isMonotone.le_last j hj)
      (not_lt.mp fun hlt => absurd ((hsplits j hj).mp hlt) (by omega))
  have hslope : b.lastSlope? = some (Point.steepness b.points[k] b.points[k + 1]) := by
    rw [lastSlope?, b.getLast?_slanted k hk hnext, Option.map_some]
    · rw [hcolumn (k + 1) hnext (by omega)]
      exact (hsplits k hk).mpr (le_refl k)
    · intro j hj hnext' hkj
      rw [hcolumn j hj hkj, hcolumn (j + 1) hnext' (by omega)]
      exact lt_irrefl _
  refine ⟨b.last.y, hb.valueAt_last, ?_⟩
  rw [hvalue, hslope, onLine_eq]
  rfl

theorem IsAccepted.goesOn_of_isColumn {b : Boundary α} (hb : b.IsAccepted) (h : b.IsColumn)
    {t : α} (hvalue : b.extendedValueAt t = .ok b.last.y) :
    b.GoesOn b.first.x b.firstSlope? t ∧ b.GoesOn b.last.x b.lastSlope? t := by
  have hx : b.first.x = b.last.x := le_antisymm hb.first_le_last h
  simp only [GoesOn, firstSlope?, lastSlope?, hb.slanted_of_isColumn h, hx]
  exact ⟨⟨_, hb.valueAt_last, hvalue⟩, ⟨_, hb.valueAt_last, hvalue⟩⟩

theorem IsAccepted.readsBeyond {b : Boundary α} (hb : b.IsAccepted) (t : α)
    (h : t < b.first.x - 1 / 10 ^ 9 ∨ b.last.x + 1 / 10 ^ 9 < t) : b.ReadsBeyond t := by
  refine hb.isMonotone.readsBeyond slackKeepsNumbers_exact t (ExactScalar.finite t) ?_
  intro v hv
  rw [b.valueAt_outside t h] at hv
  cases hv

theorem IsAccepted.goesOn_before {b : Boundary α} (hb : b.IsAccepted) (t : α)
    (h : t < b.first.x - 1 / 10 ^ 9) : b.GoesOn b.first.x b.firstSlope? t := by
  have hlt : t < b.first.x := h.trans_le (sub_le_self _ (by positivity))
  rcases hb.readsBeyond t (.inl h) with ⟨hcolumn, hvalue⟩ | ⟨-, k, hk⟩ | ⟨hge, -⟩
  · exact (hb.goesOn_of_isColumn hcolumn hvalue).1
  · exact hk.goesOn hb
  · exact absurd hlt hge

theorem IsAccepted.goesOn_after {b : Boundary α} (hb : b.IsAccepted) (t : α)
    (h : b.last.x + 1 / 10 ^ 9 < t) : b.GoesOn b.last.x b.lastSlope? t := by
  have hge : ¬ t < b.first.x := by
    have hpos : (0 : α) < 1 / 10 ^ 9 := by positivity
    exact not_lt.mpr (hb.first_le_last.trans ((le_add_of_nonneg_right hpos.le).trans h.le))
  rcases hb.readsBeyond t (.inr h) with ⟨hcolumn, hvalue⟩ | ⟨hlt, -⟩ | ⟨-, k, hk⟩
  · exact (hb.goesOn_of_isColumn hcolumn hvalue).2
  · exact absurd hlt hge
  · exact hk.goesOn hb

end Boundary

end BoundaryAtlas
