import BoundaryAtlas.Proofs.Boundary.Deletion
import BoundaryAtlas.Proofs.Plane.Segment
import BoundaryAtlas.Proofs.Trace.ForwardSweep

/-!
# Values at the times of the domain

At a time of its domain a boundary has a value, whether or not its ends are extended. The value lies
on a segment of the boundary, so a boundary whose points lie in a strip does not leave the strip.
-/

namespace BoundaryAtlas

variable {α : Type} [ExactScalar α]

theorem Interval.reflect_mem (r : Interval α) (x : α) (hx : x ∈ r) : r.lo + r.hi - x ∈ r := by
  obtain ⟨hlo, hhi⟩ := hx
  constructor <;> linarith

theorem Point.y_mem_of_mem_segment (r : Interval α) (p q z : Point α) (hz : z ∈ segment p q)
    (hp : p.y ∈ r) (hq : q.y ∈ r) : z.y ∈ r := by
  have habove : ∀ o : Point α, r.lo ≤ o.y ↔ o ∈ halfPlane 0 1 (-r.lo) := fun o => by
    simp [mem_halfPlane_iff]
  have hbelow : ∀ o : Point α, o.y ≤ r.hi ↔ o ∈ halfPlane 0 (-1) r.hi := fun o => by
    simp [mem_halfPlane_iff]
  simp only [Interval.mem_iff, habove, hbelow] at *
  exact ⟨mem_halfPlane_of_mem_segment hz hp.1 hq.1, mem_halfPlane_of_mem_segment hz hp.2 hq.2⟩

namespace Boundary

/-! ## The value lies on the boundary -/

theorem interpolate_mem_segment (p q : Point α) (t : α) (hp : p.x ≤ t) (hq : t < q.x) :
    ⟨t, interpolate p q t⟩ ∈ Point.segment p q := by
  rw [Point.mem_segment_iff_of_lt (hp.trans_lt hq)]
  refine ⟨hp, hq.le, ?_⟩
  rw [interpolate_eq, onLine_eq]

theorem segmentPast?_eq_some (t : α) (l : List (Point α)) (p q : Point α)
    (h : segmentPast? t l = some (p, q)) (hfirst : ∀ o ∈ l.head?, o.x ≤ t) :
    [p, q] <:+: l ∧ p.x ≤ t ∧ t < q.x := by
  induction l with
  | nil => simp [segmentPast?] at h
  | cons o l ih =>
    cases l with
    | nil => simp [segmentPast?] at h
    | cons o' l =>
      unfold segmentPast? at h
      split at h
      · rename_i hnext
        obtain ⟨hconsecutive, hpt, hqt⟩ := ih h (by simpa using hnext)
        exact ⟨List.infix_cons hconsecutive, hpt, hqt⟩
      · rename_i hnext
        simp only [Option.some.injEq, Prod.mk.injEq] at h
        obtain ⟨rfl, rfl⟩ := h
        exact ⟨⟨[], l, rfl⟩, hfirst o rfl, not_le.mp hnext⟩

theorem valueInside_mem (b : Boundary α) (r : Interval α) (hpoints : ∀ p ∈ b.points, p.y ∈ r)
    (t : α) (ht : b.first.x ≤ t) : b.valueInside t ∈ r := by
  have hlast : b.last.y ∈ r := hpoints b.last (List.getLast_mem b.nonempty)
  unfold valueInside
  split
  · exact hlast
  · split
    · rename_i p q h
      have hfirst : ∀ o ∈ b.points.head?, o.x ≤ t := by
        intro o ho
        rwa [← b.first_eq_head? o ho]
      obtain ⟨hconsecutive, hpt, hqt⟩ := segmentPast?_eq_some t b.points p q h hfirst
      have hp := hpoints p (hconsecutive.subset (by simp))
      have hq := hpoints q (hconsecutive.subset (by simp))
      exact Point.y_mem_of_mem_segment r p q _ (interpolate_mem_segment p q t hpt hqt) hp hq
    · exact hlast

/-! ## Times of the domain -/

theorem domainSlack_nonneg : 0 ≤ (domainSlack : α) := by
  unfold domainSlack
  rw [ExactScalar.ofDecimal_eq]
  positivity

theorem mem_domain_iff (b : Boundary α) (t : α) :
    t ∈ b.domain ↔ b.first.x ≤ t ∧ t ≤ b.last.x := Iff.rfl

theorem within_slack_of_mem (b : Boundary α) (t : α) (ht : t ∈ b.domain) :
    b.first.x - domainSlack ≤ t ∧ t ≤ b.last.x + domainSlack := by
  obtain ⟨hlo, hhi⟩ := (b.mem_domain_iff t).mp ht
  exact ⟨(sub_le_self _ domainSlack_nonneg).trans hlo,
    hhi.trans (le_add_of_nonneg_right domainSlack_nonneg)⟩

theorem covers_of_mem (b : Boundary α) (t : α) (ht : t ∈ b.domain) : b.covers t = true := by
  obtain ⟨hlo, hhi⟩ := b.within_slack_of_mem t ht
  simp [covers, not_lt.mpr hlo, not_lt.mpr hhi]

theorem valueAt_of_mem (b : Boundary α) (t : α) (ht : t ∈ b.domain) :
    b.valueAt t = .ok (b.valueInside t) := by
  obtain ⟨hlo, hhi⟩ := (b.mem_domain_iff t).mp ht
  have hclamp : Scalar.clamp t b.first.x b.last.x = t := by
    rw [ExactScalar.clamp_eq, max_eq_left hlo, min_eq_left hhi]
  rw [valueAt_def, b.covers_of_mem t ht, hclamp, if_pos rfl]

theorem extendedValueAt_of_mem (b : Boundary α) (t : α) (ht : t ∈ b.domain) :
    b.extendedValueAt t = .ok (b.valueInside t) := by
  rw [extendedValueAt_def, ExactScalar.isFinite_eq, if_pos (b.within_slack_of_mem t ht)]
  exact b.valueAt_of_mem t ht

/-! ## Half turns -/

theorem domain_invert (b : Boundary α) (box : Box α) :
    (b.invert box).domain =
      ⟨box.x.lo + box.x.hi - b.domain.hi, box.x.lo + box.x.hi - b.domain.lo⟩ := by
  simp [domain, first, last, invert, halfTurn_apply]

theorem y_mem_invert (b : Boundary α) (box : Box α) (h : ∀ p ∈ b.points, p.y ∈ box.y) :
    ∀ p ∈ (b.invert box).points, p.y ∈ box.y := by
  simp only [invert, List.mem_map, List.mem_reverse]
  rintro _ ⟨p, hp, rfl⟩
  rw [halfTurn_apply]
  exact box.y.reflect_mem p.y (h p hp)

end Boundary

end BoundaryAtlas
