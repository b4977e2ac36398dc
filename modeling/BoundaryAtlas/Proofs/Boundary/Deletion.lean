import Mathlib.Data.List.Chain
import BoundaryAtlas.Proofs.Plane.Straight
import BoundaryAtlas.Boundary.Inversion

/-!
# Deleting a point on a straight line

An inner point that lies on one line with its two neighbours can be taken out of a boundary. The
values stay the same at all times, inside the domain and beyond it, and also after half a turn.
-/

namespace BoundaryAtlas

theorem exists_first {β : Type} (before : List β) (p : β) :
    ∃ s rest, ∀ l, before ++ p :: l = s :: (rest ++ l) := by
  cases before with
  | nil => exact ⟨p, [], fun _ => rfl⟩
  | cons o before => exact ⟨o, before ++ [p], by simp⟩

theorem Boundary.first_eq_head? {α : Type} (b : Boundary α) (p : Point α)
    (h : p ∈ b.points.head?) : b.first = p := by
  rw [first, List.head_eq_iff_head?_eq_some]
  exact h

theorem Boundary.last_eq_getLast? {α : Type} (b : Boundary α) (p : Point α)
    (h : p ∈ b.points.getLast?) : b.last = p := by
  rw [last, List.getLast_eq_iff_getLast?_eq_some]
  exact h

variable {α : Type} [ExactScalar α]

/-- The columns of a polyline never go back. -/
def Point.Ordered (l : List (Point α)) : Prop := l.IsChain fun p q => p.x ≤ q.x

/-- The second list is the first one without an inner point on a straight line. -/
inductive Point.Deletes : List (Point α) → List (Point α) → Prop
  | inner (before : List (Point α)) (p q r : Point α) (after : List (Point α))
      (h : Point.Straight p q r) :
      Deletes (before ++ p :: q :: r :: after) (before ++ p :: r :: after)

namespace Boundary

open Point

/-! ## The segment to the right of a time -/

theorem segmentPast?_delete (t : α) (before : List (Point α)) (p q r : Point α)
    (after : List (Point α)) (hord : Ordered (before ++ p :: q :: r :: after))
    (h : Straight p q r) (hfirst : ∀ o ∈ (before ++ [p]).head?, o.x ≤ t) :
    (segmentPast? t (before ++ p :: q :: r :: after)).map line =
      (segmentPast? t (before ++ p :: r :: after)).map line := by
  induction before with
  | nil =>
    have hpt : p.x ≤ t := hfirst p rfl
    simp only [Ordered, List.nil_append, List.isChain_cons_cons] at hord
    obtain ⟨hpq, hqr, -⟩ := hord
    simp only [List.nil_append, segmentPast?]
    by_cases hqt : q.x ≤ t
    · rw [if_pos hqt]
      by_cases hrt : r.x ≤ t
      · rw [if_pos hrt, if_pos hrt]
      · have hqr' : q.x < r.x := hqt.trans_lt (not_le.mp hrt)
        rw [if_neg hrt, if_neg hrt, Option.map_some, Option.map_some, line_right p q r h hpq hqr']
    · have hpq' : p.x < q.x := hpt.trans_lt (not_le.mp hqt)
      have hrt : ¬ r.x ≤ t := fun hrt => hqt (hqr.trans hrt)
      rw [if_neg hqt, if_neg hrt, Option.map_some, Option.map_some, line_left p q r h hpq' hqr]
  | cons o before ih =>
    obtain ⟨s, rest, hs⟩ := exists_first before p
    simp only [List.cons_append, hs] at hord ih ⊢
    simp only [segmentPast?]
    split
    · rename_i hst
      refine ih hord.tail ?_
      rintro _ ⟨rfl⟩
      exact hst
    · rfl

/-! ## The segment to the left of a time -/

theorem segmentBefore?_eq_none (t : α) (p : Point α) (l : List (Point α))
    (h : segmentBefore? t (p :: l) = none) (hlast : ∀ q ∈ (p :: l).getLast?, t ≤ q.x) :
    t ≤ p.x := by
  cases l with
  | nil => exact hlast p rfl
  | cons q l =>
    rw [segmentBefore?] at h
    split at h
    · simp at h
    · split at h
      · simp at h
      · exact not_lt.mp (by assumption)

theorem segmentBefore?_delete (t : α) (before : List (Point α)) (p q r : Point α)
    (after : List (Point α)) (hord : Ordered (before ++ p :: q :: r :: after))
    (h : Straight p q r) (hlast : ∀ s ∈ (r :: after).getLast?, t ≤ s.x) :
    (segmentBefore? t (before ++ p :: q :: r :: after)).map (fun s => steepness s.1 s.2) =
      (segmentBefore? t (before ++ p :: r :: after)).map (fun s => steepness s.1 s.2) := by
  induction before with
  | nil =>
    simp only [Ordered, List.nil_append, List.isChain_cons_cons] at hord
    obtain ⟨hpq, hqr, -⟩ := hord
    simp only [List.nil_append, segmentBefore?]
    cases hseg : segmentBefore? t (r :: after) with
    | some s => rfl
    | none =>
      have htr : t ≤ r.x := segmentBefore?_eq_none t r after hseg hlast
      simp only
      by_cases hqt : q.x < t
      · have hqr' : q.x < r.x := hqt.trans_le htr
        have hpt : p.x < t := hpq.trans_lt hqt
        simp only [hqt, hpt, if_true, Option.map_some, steepness_right p q r h hpq hqr']
      · rw [if_neg hqt]
        simp only
        by_cases hpt : p.x < t
        · have hpq' : p.x < q.x := hpt.trans_le (not_lt.mp hqt)
          simp only [hpt, if_true, Option.map_some, steepness_left p q r h hpq' hqr]
        · rw [if_neg hpt, if_neg hpt]
  | cons o before ih =>
    obtain ⟨s, rest, hs⟩ := exists_first before p
    simp only [List.cons_append, hs] at hord ih ⊢
    have ih := ih hord.tail
    simp only [segmentBefore?]
    cases hl : segmentBefore? t (s :: (rest ++ q :: r :: after)) <;>
      cases hr : segmentBefore? t (s :: (rest ++ r :: after)) <;> simp_all

/-! ## Values -/

/-- The second boundary is the first one without an inner point on a straight line. -/
def Deletes (b c : Boundary α) : Prop := Point.Deletes b.points c.points

theorem Deletes.first_eq {b c : Boundary α} (h : b.Deletes c) : b.first = c.first := by
  obtain ⟨bpoints, hb⟩ := b
  obtain ⟨cpoints, hc⟩ := c
  obtain ⟨before, p, q, r, after, -⟩ := h
  obtain ⟨s, rest, hs⟩ := exists_first before p
  rw [first_eq_head? _ s (by simp [hs]), first_eq_head? _ s (by simp [hs])]

theorem Deletes.last_eq {b c : Boundary α} (h : b.Deletes c) : b.last = c.last := by
  obtain ⟨bpoints, hb⟩ := b
  obtain ⟨cpoints, hc⟩ := c
  obtain ⟨before, p, q, r, after, -⟩ := h
  simp [last]

theorem first_le_last (b : Boundary α) (h : Ordered b.points) : b.first.x ≤ b.last.x := by
  have hpair : b.points.Pairwise fun p q => p.x ≤ q.x := by
    have : Trans (fun p q : Point α => p.x ≤ q.x) (fun p q : Point α => p.x ≤ q.x)
        (fun p q : Point α => p.x ≤ q.x) := ⟨le_trans⟩
    exact h.pairwise
  obtain ⟨points, hne⟩ := b
  obtain ⟨p, l, rfl⟩ := List.exists_cons_of_ne_nil hne
  rw [List.pairwise_cons] at hpair
  rcases List.mem_cons.mp (List.getLast_mem hne) with hlast | hlast
  · simp only [first, last, hlast, List.head_cons, le_refl]
  · exact hpair.1 _ hlast

theorem Deletes.line_eq {b c : Boundary α} (h : b.Deletes c) (hord : Ordered b.points) (t : α)
    (ht : b.first.x ≤ t) :
    (segmentPast? t b.points).map line = (segmentPast? t c.points).map line := by
  have hfirst := h.first_eq
  obtain ⟨bpoints, hb⟩ := b
  obtain ⟨cpoints, hc⟩ := c
  obtain ⟨before, p, q, r, after, h⟩ := h
  refine segmentPast?_delete t before p q r after hord h ?_
  intro o ho
  obtain ⟨s, rest, hs⟩ := exists_first before p
  rw [first_eq_head? _ s (by simp [hs])] at ht
  simp_all

theorem Deletes.steepness_eq {b c : Boundary α} (h : b.Deletes c) (hord : Ordered b.points) :
    (segmentBefore? b.last.x b.points).map (fun s => steepness s.1 s.2) =
      (segmentBefore? b.last.x c.points).map (fun s => steepness s.1 s.2) := by
  obtain ⟨bpoints, hb⟩ := b
  obtain ⟨cpoints, hc⟩ := c
  obtain ⟨before, p, q, r, after, h⟩ := h
  refine segmentBefore?_delete _ before p q r after hord h ?_
  intro s hs
  rw [last_eq_getLast? _ s (by simpa using hs)]

theorem valueInside_eq (b : Boundary α) (t : α) :
    b.valueInside t = if b.last.x ≤ t then b.last.y
      else (((segmentPast? t b.points).map line).map (· t)).getD b.last.y := by
  unfold valueInside
  split
  · rfl
  · cases segmentPast? t b.points with
    | none => rfl
    | some s => exact interpolate_eq s.1 s.2 t

theorem valueBefore_eq (b : Boundary α) (t : α) :
    b.valueBefore t =
      (((segmentPast? b.first.x b.points).map line).map (· t)).getD b.last.y := by
  unfold valueBefore
  cases segmentPast? b.first.x b.points <;> rfl

theorem valueAfter_eq (b : Boundary α) (t : α) :
    b.valueAfter t =
      (((segmentBefore? b.last.x b.points).map fun s => steepness s.1 s.2).map fun m =>
        b.last.y + m * (t - b.last.x)).getD b.last.y := by
  unfold valueAfter
  cases segmentBefore? b.last.x b.points <;> rfl

theorem Deletes.valueAt_eq {b c : Boundary α} (h : b.Deletes c) (hord : Ordered b.points)
    (t : α) : b.valueAt t = c.valueAt t := by
  have hinside : ∀ t, b.first.x ≤ t → b.valueInside t = c.valueInside t := by
    intro t ht
    rw [valueInside_eq, valueInside_eq, h.line_eq hord t ht, h.last_eq]
  have hclamp : b.first.x ≤ Scalar.clamp t b.first.x b.last.x := by
    have hle := b.first_le_last hord
    simp only [Scalar.clamp]
    split <;> split
    · exact hle
    · exact le_refl _
    · exact hle
    · exact not_lt.mp (by assumption)
  rw [valueAt_def, valueAt_def]
  unfold covers
  rw [hinside _ hclamp, h.first_eq, h.last_eq]

theorem Deletes.extendedValueAt_eq {b c : Boundary α} (h : b.Deletes c)
    (hord : Ordered b.points) (t : α) : b.extendedValueAt t = c.extendedValueAt t := by
  have hbefore : b.valueBefore t = c.valueBefore t := by
    rw [valueBefore_eq, valueBefore_eq, h.line_eq hord _ (le_refl _), h.first_eq, h.last_eq]
  have hafter : b.valueAfter t = c.valueAfter t := by
    rw [valueAfter_eq, valueAfter_eq, h.steepness_eq hord, h.last_eq]
  rw [extendedValueAt_def, extendedValueAt_def, h.valueAt_eq hord t, hbefore, hafter, h.first_eq, h.last_eq]

/-! ## Half turns -/

theorem halfTurn_apply (box : Box α) (p : Point α) :
    (AffineMap.halfTurn box).apply p = ⟨box.x.lo + box.x.hi - p.x, box.y.lo + box.y.hi - p.y⟩ := by
  apply Point.ext <;> simp only [AffineMap.apply, AffineMap.halfTurn, ExactScalar.ofNat_eq] <;>
    push_cast <;> ring

theorem straight_halfTurn (box : Box α) (p q r : Point α) (h : Straight p q r) :
    Straight ((AffineMap.halfTurn box).apply r) ((AffineMap.halfTurn box).apply q)
      ((AffineMap.halfTurn box).apply p) := by
  rw [straight_iff] at h ⊢
  simp only [halfTurn_apply]
  linear_combination -h

theorem Deletes.invert {b c : Boundary α} (h : b.Deletes c) (box : Box α) :
    (b.invert box).Deletes (c.invert box) := by
  obtain ⟨bpoints, hb⟩ := b
  obtain ⟨cpoints, hc⟩ := c
  obtain ⟨before, p, q, r, after, h⟩ := h
  have hturn := Point.Deletes.inner (after.reverse.map (AffineMap.halfTurn box).apply) _ _ _
    (before.reverse.map (AffineMap.halfTurn box).apply) (straight_halfTurn box p q r h)
  simpa [Boundary.Deletes, Boundary.invert] using hturn

theorem ordered_invert (b : Boundary α) (box : Box α) (h : Ordered b.points) :
    Ordered (b.invert box).points := by
  rw [Ordered, Boundary.invert, List.isChain_map, List.isChain_reverse]
  refine h.imp ?_
  intro p q hpq
  simp only [halfTurn_apply]
  linarith

end Boundary

end BoundaryAtlas
