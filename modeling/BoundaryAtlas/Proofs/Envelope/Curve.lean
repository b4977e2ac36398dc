import BoundaryAtlas.Proofs.Boundary.Interpolation
import BoundaryAtlas.Envelope.Basic

/-!
# Curves as boundaries

The anchors of a curve are the points of a boundary. A curve has a value at the times of its domain
and at no other, and it is the value of that boundary.
-/

namespace BoundaryAtlas.Curve

section

variable {α : Type} [Scalar α]

/-! ## Checked anchors -/

/-- What is checked of the anchors. -/
structure IsAccepted (c : Curve α) : Prop where
  finite : ∀ p ∈ c.anchors, p.isFinite = true
  increasing : c.anchors.IsChain fun p q => p.x < q.x

theorem ofAnchors_eq_ok {anchors : List (Point α)} {c : Curve α}
    (h : ofAnchors anchors = .ok c) :
    c.anchors = anchors ∧ (∀ p ∈ anchors, p.isFinite = true) ∧
      ∀ s ∈ neighbours anchors, ¬ s.2.x ≤ s.1.x := by
  unfold ofAnchors at h
  split at h
  · cases h
  split at h
  · cases h
  split at h
  · cases h
  rename_i hfinite hback
  cases h
  refine ⟨rfl, by simpa using hfinite, fun s hs hle => hback ?_⟩
  exact List.any_eq_true.mpr ⟨s, hs, decide_eq_true hle⟩

theorem isAccepted_of_ofAnchors [Scalar.Rounded α] {anchors : List (Point α)} {c : Curve α}
    (h : ofAnchors anchors = .ok c) : c.IsAccepted := by
  obtain ⟨rfl, hfinite, hback⟩ := ofAnchors_eq_ok h
  refine ⟨hfinite, (forall_neighbours_iff _ _).mp fun s hs => ?_⟩
  have hnumber : ∀ p ∈ c.anchors, Scalar.IsNumber p.x := fun p hp =>
    Scalar.Rounded.isNumber_of_isFinite (Bool.and_eq_true _ _ ▸ hfinite p hp).1
  have hmem := List.of_mem_zip hs
  by_contra hlt
  exact hback s hs (Scalar.Comparable.le_of_not_lt (hnumber _ hmem.1)
    (hnumber _ (List.mem_of_mem_tail hmem.2)) hlt)

/-! ## The segment at a time -/

theorem exists_segmentAt?_eq (x : α) (l : List (Point α)) (h : 2 ≤ l.length) :
    ∃ k, ∃ (_ : k < l.length) (_ : k + 1 < l.length), segmentAt? x l = some (l[k], l[k + 1]) ∧
      (k = 0 ∨ l[k].x ≤ x) ∧ (k + 2 = l.length ∨ ¬ l[k + 1].x ≤ x) := by
  induction l with
  | nil => simp at h
  | cons p l ih =>
    match l with
    | [] => simp at h
    | [q] => exact ⟨0, by simp, by simp, rfl, .inl rfl, .inl rfl⟩
    | q :: r :: rest =>
      simp only [segmentAt?]
      by_cases hq : q.x ≤ x
      · obtain ⟨k, hk, hnext, hsegment, hleft, hright⟩ := ih (by simp)
        refine ⟨k + 1, by simpa using hk, by simpa using hnext, by rw [if_pos hq, hsegment]; rfl, .inr ?_, ?_⟩
        · rcases hleft with rfl | hleft
          · exact hq
          · exact hleft
        · simpa using hright
      · exact ⟨0, by simp, by simp, by rw [if_neg hq]; rfl, .inl rfl, .inr hq⟩

/-- The value at `x` is computed from the anchors at `k` and `k + 1`, between which `x` lies. The
right end belongs to the last segment only. The divisor is positive. -/
structure ReadsAt (c : Curve α) (x : α) (k : ℕ) : Prop where
  lt : k + 1 < c.anchors.length
  left : c.anchors[k].x ≤ x
  right : k + 2 = c.anchors.length ∨ ¬ c.anchors[k + 1].x ≤ x
  value : c.eval? x = some (Boundary.onLine c.anchors[k] c.anchors[k + 1] c.anchors[k] x)
  divisor : Scalar.ofNat 0 < c.anchors[k + 1].x - c.anchors[k].x

theorem IsAccepted.exists_readsAt [Scalar.Rounded α] {c : Curve α} (hc : c.IsAccepted) (x : α)
    (hlo : c.domain.lo ≤ x) (hhi : x ≤ c.domain.hi) : ∃ k, c.ReadsAt x k := by
  obtain ⟨k, _, hk, hsegment, hleft, hright⟩ := exists_segmentAt?_eq x c.anchors c.two_le
  have hfinite : ∀ p ∈ c.anchors, Scalar.isFinite p.x = true := fun p hp =>
    (Bool.and_eq_true _ _ ▸ hc.finite p hp).1
  refine ⟨k, hk, ?_, hright, ?_, ?_⟩
  · rcases hleft with rfl | hleft
    · rwa [domain, List.head_eq_getElem] at hlo
    · exact hleft
  · rw [eval?, if_pos ⟨hlo, hhi⟩, hsegment]
    rfl
  · exact Scalar.Rounded.sub_pos (hfinite _ (List.getElem_mem _)) (hfinite _ (List.getElem_mem _))
      (List.isChain_iff_getElem.mp hc.increasing k hk)

end

variable {α : Type} [ExactScalar α]

theorem exists_eval?_iff (c : Curve α) (x : α) : (∃ y, c.eval? x = some y) ↔ x ∈ c.domain := by
  obtain ⟨k, _, hk, hsegment, -⟩ := exists_segmentAt?_eq x c.anchors c.two_le
  unfold eval?
  rw [hsegment]
  split
  · rename_i hin
    exact iff_of_true ⟨_, rfl⟩ hin
  · rename_i hout
    exact iff_of_false (by simp) hout

/-! ## The boundary through the anchors -/

def toBoundary (c : Curve α) : Boundary α := ⟨c.anchors, c.anchors_ne_nil⟩

theorem IsAccepted.ofPoints_anchors {c : Curve α} (hc : c.IsAccepted) :
    Boundary.ofPoints c.anchors = .ok c.toBoundary :=
  Boundary.ofPoints_eq c.anchors c.anchors_ne_nil (hc.increasing.imp fun _ _ h => h.le)

theorem IsAccepted.eval?_eq_valueInside {c : Curve α} (hc : c.IsAccepted) (x : α)
    (hx : x ∈ c.domain) : c.eval? x = some (c.toBoundary.valueInside x) := by
  have hb := Boundary.isAccepted_of_ofPoints hc.ofPoints_anchors
  obtain ⟨k, h, hleft, hend, hvalue, -⟩ := hc.exists_readsAt x hx.1 hx.2
  rw [hvalue]
  by_cases hright : c.anchors[k + 1].x ≤ x
  · -- Only the last segment contains its right end, where the line meets the last anchor.
    have hlast : c.toBoundary.last = c.anchors[k + 1] :=
      c.toBoundary.last_eq_getElem (k + 1) h (hend.resolve_right (not_not_intro hright)).ge
    have hle : x ≤ c.toBoundary.last.x := hx.2
    rw [hlast] at hle
    obtain rfl : c.anchors[k + 1].x = x := le_antisymm hright hle
    rw [Boundary.onLine_right _ _ (List.isChain_iff_getElem.mp hc.increasing k h),
      Boundary.valueInside, if_pos (by rw [hlast]), hlast]
  · rw [hb.valueInside_eq k h x hleft (not_le.mp hright), Boundary.interpolate_eq]
    rfl

theorem IsAccepted.eval?_eq_some_iff {c : Curve α} (hc : c.IsAccepted) (x v : α) :
    c.eval? x = some v ↔ x ∈ c.domain ∧ c.toBoundary.valueAt x = .ok v := by
  by_cases hx : x ∈ c.domain
  · rw [hc.eval?_eq_valueInside x hx, c.toBoundary.valueAt_of_mem x hx]
    simp [hx]
  · exact iff_of_false (fun hv => hx ((c.exists_eval?_iff x).mp ⟨v, hv⟩)) fun h => hx h.1

theorem IsAccepted.eval?_anchor {c : Curve α} (hc : c.IsAccepted) (k : ℕ)
    (h : k < c.anchors.length) : c.eval? c.anchors[k].x = some c.anchors[k].y := by
  have hb := Boundary.isAccepted_of_ofPoints hc.ofPoints_anchors
  have hlater : ∀ j (_ : j < c.anchors.length), k < j → c.anchors[k].x < c.anchors[j].x :=
    fun j hj hkj => List.pairwise_iff_getElem.mp hc.increasing.pairwise k j h hj hkj
  rw [hc.eval?_eq_some_iff]
  exact ⟨⟨hb.isMonotone.first_le k h, hb.isMonotone.le_last k h⟩, hb.valueAt_column k h hlater⟩

theorem IsAccepted.exists_mem_segment {c : Curve α} (hc : c.IsAccepted) (x v : α)
    (hv : c.eval? x = some v) :
    ∃ p ∈ c.anchors, ∃ q ∈ c.anchors, ⟨x, v⟩ ∈ Point.segment p q := by
  have hx := (c.exists_eval?_iff x).mp ⟨v, hv⟩
  have hb := Boundary.isAccepted_of_ofPoints hc.ofPoints_anchors
  obtain rfl := Option.some.inj ((hc.eval?_eq_valueInside x hx).symm.trans hv)
  rcases hx.2.eq_or_lt with hend | hbefore
  · obtain rfl : c.toBoundary.last.x = x := hend.symm
    have hlast : c.toBoundary.last ∈ c.anchors := List.getLast_mem c.anchors_ne_nil
    rw [hb.follows_valueInside.last]
    exact ⟨_, hlast, _, hlast, Point.left_mem_segment _ _⟩
  · obtain ⟨k, h, hleft, hright⟩ := hb.exists_between x hx.1 hbefore
    exact ⟨_, List.getElem_mem _, _, List.getElem_mem h,
      hb.follows_valueInside.chord k h x hleft hright⟩

theorem IsAccepted.mem_halfPlane {c : Curve α} (hc : c.IsAccepted) (a b d : α)
    (hanchors : ∀ p ∈ c.anchors, p ∈ Point.halfPlane a b d) (x v : α) (hv : c.eval? x = some v) :
    ⟨x, v⟩ ∈ Point.halfPlane a b d := by
  obtain ⟨p, hp, q, hq, hsegment⟩ := hc.exists_mem_segment x v hv
  exact Point.mem_halfPlane_of_mem_segment hsegment (hanchors p hp) (hanchors q hq)

/-- **Curves.** Checked anchors are the points of a boundary. The curve has a value at the times
from the first anchor to the last and at no other, namely that of the boundary, and at each anchor
that of the anchor. The anchors are read inside the list, and the divisor is positive. -/
theorem eval?_follows_boundary (anchors : List (Point α)) (c : Curve α)
    (hc : ofAnchors anchors = .ok c) :
    ∃ b : Boundary α, Boundary.ofPoints anchors = .ok b ∧ b.points = anchors ∧
      (∀ x, (∃ v, c.eval? x = some v) ↔ b.first.x ≤ x ∧ x ≤ b.last.x) ∧
      (∀ x v, c.eval? x = some v → b.valueAt x = .ok v) ∧
      (∀ k (h : k < anchors.length), c.eval? anchors[k].x = some anchors[k].y) ∧
      ∀ x, b.first.x ≤ x → x ≤ b.last.x → ∃ k, c.ReadsAt x k := by
  have haccepted := isAccepted_of_ofAnchors hc
  obtain ⟨rfl, -⟩ := ofAnchors_eq_ok hc
  exact ⟨c.toBoundary, haccepted.ofPoints_anchors, rfl, c.exists_eval?_iff,
    fun x v hv => ((haccepted.eval?_eq_some_iff x v).mp hv).2, haccepted.eval?_anchor,
    haccepted.exists_readsAt⟩

/-- The upper curve of the reference envelope. -/
def upperReference : Curve ℚ := (Envelope.canonical : Envelope ℚ).upper

theorem eval?_follows_boundary_reference :
    ofAnchors upperReference.anchors = .ok upperReference ∧
      upperReference.eval? 14 = some (3 / 5) ∧ upperReference.eval? 20 = some (1 / 5) := by
  have hc : ofAnchors upperReference.anchors = .ok upperReference := by decide +kernel
  obtain ⟨b, -, -, -, -, hanchor, -⟩ := eval?_follows_boundary _ _ hc
  have hbend : upperReference.anchors[2] = ⟨14, 3 / 5⟩ := by decide +kernel
  have hend : upperReference.anchors[3] = ⟨20, 1 / 5⟩ := by decide +kernel
  have hvalue := hanchor 2 (by decide)
  have hvalue' := hanchor 3 (by decide)
  rw [hbend] at hvalue
  rw [hend] at hvalue'
  exact ⟨hc, hvalue, hvalue'⟩

end BoundaryAtlas.Curve
