import BoundaryAtlas.Proofs.Boundary.Deletion
import BoundaryAtlas.Proofs.Grid.Place

/-!
# Half turns of the grid

Half a turn takes the nodes of the grid to its nodes, and canonical boundaries to canonical
boundaries with as many kinks. In the plane it is half a turn about the center of the grid.
-/

namespace BoundaryAtlas

variable {α : Type}

/-! ## Nodes -/

namespace GridPoint

/-- The node after half a turn of the grid. -/
def halfTurn (d : Grid α) (p : GridPoint) : GridPoint := ⟨d.numX - p.col, d.numY - p.row⟩

/-- The point is a node of the grid. -/
def IsNode (d : Grid α) (p : GridPoint) : Prop := p.col ≤ d.numX ∧ p.row ≤ d.numY

theorem isNode_halfTurn (d : Grid α) (p : GridPoint) : (p.halfTurn d).IsNode d :=
  ⟨Nat.sub_le _ _, Nat.sub_le _ _⟩

theorem halfTurn_halfTurn {d : Grid α} {p : GridPoint} (h : p.IsNode d) :
    (p.halfTurn d).halfTurn d = p := by
  obtain ⟨i, j⟩ := p
  obtain ⟨hi, hj⟩ := h
  simp only [halfTurn, mk.injEq]
  exact ⟨Nat.sub_sub_self hi, Nat.sub_sub_self hj⟩

theorem cross_halfTurn {d : Grid α} {p q r : GridPoint} (hp : p.IsNode d) (hq : q.IsNode d)
    (hr : r.IsNode d) :
    cross (r.halfTurn d) (q.halfTurn d) (p.halfTurn d) = -cross p q r := by
  obtain ⟨hp, hp'⟩ := hp
  obtain ⟨hq, hq'⟩ := hq
  obtain ⟨hr, hr'⟩ := hr
  simp only [cross, halfTurn, Nat.cast_sub hp, Nat.cast_sub hp', Nat.cast_sub hq,
    Nat.cast_sub hq', Nat.cast_sub hr, Nat.cast_sub hr']
  ring

end GridPoint

/-! ## Boundaries -/

namespace GridBoundary

/-- The boundary after half a turn of the grid, from left to right again. -/
def halfTurn (d : Grid α) (b : GridBoundary) : GridBoundary :=
  ⟨b.points.reverse.map (GridPoint.halfTurn d)⟩

theorem halfTurn_halfTurn {d : Grid α} {b : GridBoundary} (h : ∀ p ∈ b.points, p.IsNode d) :
    (b.halfTurn d).halfTurn d = b := by
  obtain ⟨points⟩ := b
  simp only [halfTurn, ← List.map_reverse, List.reverse_reverse, List.map_map, mk.injEq]
  exact (List.map_congr_left fun p hp => GridPoint.halfTurn_halfTurn (h p hp)).trans (List.map_id _)

theorem isNode_of_mem_halfTurn {d : Grid α} {b : GridBoundary} {p : GridPoint}
    (h : p ∈ (b.halfTurn d).points) : p.IsNode d := by
  obtain ⟨q, -, rfl⟩ := List.mem_map.mp h
  exact q.isNode_halfTurn d

theorem IsCanonical.halfTurn {d : Grid α} {n : Nat} {b : GridBoundary} (h : b.IsCanonical d n) :
    (b.halfTurn d).IsCanonical d n where
  length_eq := by simpa [GridBoundary.halfTurn] using h.length_eq
  starts := by
    simp only [GridBoundary.halfTurn, List.head?_map, List.head?_reverse, Option.mem_map]
    rintro _ ⟨p, hp, rfl⟩
    simp [GridPoint.halfTurn, h.ends p hp]
  ends := by
    simp only [GridBoundary.halfTurn, List.getLast?_map, List.getLast?_reverse, Option.mem_map]
    rintro _ ⟨p, hp, rfl⟩
    simp [GridPoint.halfTurn, h.starts p hp]
  ordered := by
    rw [GridBoundary.halfTurn, List.isChain_map, List.isChain_reverse]
    exact h.ordered.imp fun p q hpq => Nat.sub_le_sub_left hpq d.numX
  nodes := fun _ => isNode_of_mem_halfTurn
  bends := by
    intro p q r hpqr
    have hp : p.IsNode d := isNode_of_mem_halfTurn (hpqr.subset (by simp))
    have hq : q.IsNode d := isNode_of_mem_halfTurn (hpqr.subset (by simp))
    have hr : r.IsNode d := isNode_of_mem_halfTurn (hpqr.subset (by simp))
    -- Another half turn takes the three nodes back to the boundary.
    have hback : [r.halfTurn d, q.halfTurn d, p.halfTurn d] <:+: b.points := by
      rw [← halfTurn_halfTurn h.nodes]
      exact (List.reverse_infix.mpr hpqr).map (GridPoint.halfTurn d)
    have hturned := h.bends _ _ _ hback
    rw [GridPoint.cross_halfTurn hp hq hr] at hturned
    exact neg_ne_zero.mp hturned

theorem isCanonical_halfTurn_iff {d : Grid α} {n : Nat} {b : GridBoundary}
    (h : ∀ p ∈ b.points, p.IsNode d) : (b.halfTurn d).IsCanonical d n ↔ b.IsCanonical d n := by
  refine ⟨fun hturned => ?_, IsCanonical.halfTurn⟩
  rw [← halfTurn_halfTurn h]
  exact hturned.halfTurn

end GridBoundary

/-! ## Half turns in the plane -/

/-- The box of the grid itself. -/
def Grid.box [Scalar α] (d : Grid α) : Box α :=
  ⟨⟨Scalar.ofNat 0, d.width⟩, ⟨Scalar.ofNat 0, d.height⟩⟩

namespace GridBoundary

variable [ExactScalar α]

theorem place_halfTurn {d : Grid α} {p : GridPoint} (h : p.IsNode d) :
    place d (p.halfTurn d) = (AffineMap.halfTurn d.box).apply (place d p) := by
  obtain ⟨hcol, hrow⟩ := h
  rw [Boundary.halfTurn_apply]
  apply Point.ext
  · simp only [place_x, GridPoint.halfTurn, Nat.cast_sub hcol, Grid.box, Grid.width,
      ExactScalar.ofNat_eq, Nat.cast_zero]
    ring
  · simp only [place_y, GridPoint.halfTurn, Nat.cast_sub hrow, Grid.box, Grid.height,
      ExactScalar.ofNat_eq, Nat.cast_zero]
    ring

theorem IsCanonical.toBoundary_halfTurn {d : Grid α} {n : Nat} {b : GridBoundary}
    (h : b.IsCanonical d n) (hx : 0 < d.xSpacing) :
    (b.halfTurn d).toBoundary d = (b.toBoundary d).map fun c => c.invert d.box := by
  obtain ⟨c, hc, hpoints, -⟩ := h.isValid.toBoundary_eq hx
  obtain ⟨c', hc', hpoints', -⟩ := h.halfTurn.isValid.toBoundary_eq hx
  have hturned : c'.points = (c.invert d.box).points := by
    simp only [Boundary.invert, hpoints, hpoints', GridBoundary.halfTurn, ← List.map_reverse,
      List.map_map]
    refine List.map_congr_left fun p hp => place_halfTurn (h.nodes p ?_)
    exact List.mem_reverse.mp hp
  rw [hc, hc', Except.map, Except.ok.injEq, Boundary.mk.injEq]
  exact hturned

end GridBoundary

end BoundaryAtlas
