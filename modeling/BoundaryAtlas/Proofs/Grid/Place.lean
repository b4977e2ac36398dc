import Mathlib.Tactic.Positivity
import BoundaryAtlas.Proofs.Grid.Canonical
import BoundaryAtlas.Proofs.Plane.Straight

/-!
# Grid boundaries in the plane

With exact numbers, a valid grid boundary has a place in the plane, and its kinks are kinks there.
-/

namespace BoundaryAtlas

theorem forall_neighbours_iff {β : Type} (R : β → β → Prop) (l : List β) :
    (∀ s ∈ neighbours l, R s.1 s.2) ↔ l.IsChain R := by
  induction l with
  | nil => simp [neighbours]
  | cons p l ih =>
    cases l with
    | nil => simp [neighbours]
    | cons q l =>
      have hcons : neighbours (p :: q :: l) = (p, q) :: neighbours (q :: l) := rfl
      rw [hcons, List.forall_mem_cons, ih, List.isChain_cons_cons]

namespace GridBoundary

variable {α : Type}

/-- A boundary through nodes of the grid, from the first column to the last. -/
structure IsValid (d : Grid α) (b : GridBoundary) : Prop where
  nodes : ∀ p ∈ b.points, p.col ≤ d.numX ∧ p.row ≤ d.numY
  starts : ∃ p ∈ b.points.head?, p.col = 0
  ends : ∃ p ∈ b.points.getLast?, p.col = d.numX
  ordered : b.points.IsChain fun p q => p.col ≤ q.col

theorem outlier?_eq_none_iff (d : Grid α) (b : GridBoundary) :
    b.outlier? d = none ↔ ∀ p ∈ b.points, p.col ≤ d.numX ∧ p.row ≤ d.numY := by
  simp [outlier?, List.find?_eq_none]

theorem spans_iff (d : Grid α) (b : GridBoundary) :
    b.spans d = true ↔
      (∃ p ∈ b.points.head?, p.col = 0) ∧ ∃ p ∈ b.points.getLast?, p.col = d.numX := by
  simp [spans, Option.any_eq_true]

theorem ordered_iff (b : GridBoundary) :
    b.ordered = true ↔ b.points.IsChain fun p q => p.col ≤ q.col := by
  simp only [ordered, List.all_eq_true, decide_eq_true_eq]
  exact forall_neighbours_iff (fun p q : GridPoint => p.col ≤ q.col) b.points

theorem validate_eq_ok_iff (d : Grid α) (b : GridBoundary) :
    b.validate d = .ok () ↔ b.IsValid d := by
  unfold validate
  cases hout : b.outlier? d with
  | some p =>
    simp only [reduceCtorEq, false_iff]
    intro h
    rw [(outlier?_eq_none_iff d b).mpr h.nodes] at hout
    simp at hout
  | none =>
    have hnodes := (outlier?_eq_none_iff d b).mp hout
    cases hspans : b.spans d with
    | false =>
      simp only [Bool.not_false, if_true, reduceCtorEq, false_iff]
      intro h
      rw [(spans_iff d b).mpr ⟨h.starts, h.ends⟩] at hspans
      simp at hspans
    | true =>
      obtain ⟨hstarts, hends⟩ := (spans_iff d b).mp hspans
      cases hord : b.ordered with
      | false =>
        simp only [Bool.not_true, Bool.false_eq_true, Bool.not_false, if_true, if_false,
          reduceCtorEq, false_iff]
        intro h
        rw [(ordered_iff b).mpr h.ordered] at hord
        simp at hord
      | true =>
        simp only [Bool.not_true, Bool.false_eq_true, if_false, true_iff]
        exact ⟨hnodes, hstarts, hends, (ordered_iff b).mp hord⟩

theorem IsCanonical.isValid {d : Grid α} {n : Nat} {b : GridBoundary} (h : b.IsCanonical d n) :
    b.IsValid d where
  nodes := h.nodes
  starts := by
    obtain ⟨p, l, hl⟩ := List.exists_cons_of_ne_nil h.points_ne_nil
    exact ⟨p, by simp [hl], h.starts p (by simp [hl])⟩
  ends := ⟨_, List.getLast?_eq_some_getLast h.points_ne_nil,
    h.ends _ (List.getLast?_eq_some_getLast h.points_ne_nil)⟩
  ordered := h.ordered

theorem IsValid.isCanonical {d : Grid α} {b : GridBoundary} (h : b.IsValid d) (hd : 1 ≤ d.numX)
    (hbends : ∀ p q r, [p, q, r] <:+: b.points → GridPoint.cross p q r ≠ 0) :
    b.IsCanonical d b.kinks := by
  have htwo : 2 ≤ b.points.length := by
    obtain ⟨p, hp, hp0⟩ := h.starts
    obtain ⟨q, hq, hqx⟩ := h.ends
    match hl : b.points with
    | [] => simp [hl] at hp
    | [_] => simp_all
    | _ :: _ :: _ => simp
  have hlen : b.points.length = b.kinks + 2 := by
    rw [kinks, turns_eq b.points hbends]
    omega
  obtain ⟨p, hp, hp0⟩ := h.starts
  obtain ⟨q, hq, hqx⟩ := h.ends
  refine ⟨hlen, ?_, ?_, h.ordered, h.nodes, hbends⟩
  · intro p' hp'
    rwa [Option.mem_unique hp' hp]
  · intro q' hq'
    rwa [Option.mem_unique hq' hq]

end GridBoundary

/-! ## Places -/

variable {α : Type} [ExactScalar α]

theorem Grid.pos_of_validate (d : Grid α) (h : d.validate = .ok ()) :
    0 < d.xSpacing ∧ 0 < d.ySpacing ∧ 1 ≤ d.numX ∧ 1 ≤ d.numY := by
  unfold Grid.validate at h
  split at h
  · simp at h
  · split at h
    · simp at h
    · split at h
      · simp at h
      · simp_all
        omega

theorem Boundary.ofPoints_eq (points : List (Point α)) (hne : points ≠ [])
    (hord : points.IsChain fun p q => p.x ≤ q.x) : ofPoints points = .ok ⟨points, hne⟩ := by
  rw [ofPoints, dif_neg hne, if_neg, if_neg]
  · rw [List.any_eq_true]
    rintro ⟨s, hs, hback⟩
    exact ((forall_neighbours_iff _ _).mpr hord s hs).not_gt (of_decide_eq_true hback)
  · simp

namespace GridBoundary

theorem place_x (d : Grid α) (p : GridPoint) : (place d p).x = p.col * d.xSpacing := by
  simp [place]

theorem place_y (d : Grid α) (p : GridPoint) : (place d p).y = p.row * d.ySpacing := by
  simp [place]

theorem place_x_le_iff (d : Grid α) (hx : 0 < d.xSpacing) (p q : GridPoint) :
    (place d p).x ≤ (place d q).x ↔ p.col ≤ q.col := by
  rw [place_x, place_x, mul_le_mul_iff_of_pos_right hx, Nat.cast_le]

theorem place_injective (d : Grid α) (hx : 0 < d.xSpacing) (hy : 0 < d.ySpacing) :
    Function.Injective (place d) := by
  intro p q h
  have hcol := congrArg Point.x h
  have hrow := congrArg Point.y h
  rw [place_x, place_x, mul_left_inj' hx.ne', Nat.cast_inj] at hcol
  rw [place_y, place_y, mul_left_inj' hy.ne', Nat.cast_inj] at hrow
  cases p; cases q; simp_all

theorem straight_place_iff (d : Grid α) (hx : 0 < d.xSpacing) (hy : 0 < d.ySpacing)
    (p q r : GridPoint) :
    Point.Straight (place d p) (place d q) (place d r) ↔ GridPoint.cross p q r = 0 := by
  have hcross : Point.cross (place d q - place d p) (place d r - place d q) =
      (GridPoint.cross p q r : α) * (d.xSpacing * d.ySpacing) := by
    change ((place d q).x - (place d p).x) * ((place d r).y - (place d q).y) -
      ((place d q).y - (place d p).y) * ((place d r).x - (place d q).x) = _
    simp only [place_x, place_y, GridPoint.cross]
    push_cast
    ring
  have hne : d.xSpacing * d.ySpacing ≠ 0 := by positivity
  rw [Point.Straight, hcross, mul_eq_zero_iff_right hne, Int.cast_eq_zero]

theorem ordered_place (d : Grid α) (hx : 0 < d.xSpacing) (l : List GridPoint)
    (h : l.IsChain fun p q => p.col ≤ q.col) :
    (l.map (place d)).IsChain fun p q => p.x ≤ q.x := by
  rw [List.isChain_map]
  exact h.imp fun p q hpq => (place_x_le_iff d hx p q).mpr hpq

theorem IsValid.toBoundary_eq {d : Grid α} {b : GridBoundary} (h : b.IsValid d)
    (hx : 0 < d.xSpacing) :
    ∃ c : Boundary α, b.toBoundary d = .ok c ∧ c.points = b.points.map (place d) ∧
      c.points.IsChain fun p q => p.x ≤ q.x := by
  have hne : b.points.map (place d) ≠ [] := by
    obtain ⟨p, hp, -⟩ := h.starts
    intro hnil
    rw [List.map_eq_nil_iff] at hnil
    simp [hnil] at hp
  have hord := ordered_place d hx b.points h.ordered
  refine ⟨⟨b.points.map (place d), hne⟩, ?_, rfl, hord⟩
  rw [toBoundary, (outlier?_eq_none_iff d b).mpr h.nodes]
  exact Boundary.ofPoints_eq _ hne hord

end GridBoundary

end BoundaryAtlas
