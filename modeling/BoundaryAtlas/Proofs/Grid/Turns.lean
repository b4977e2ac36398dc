import BoundaryAtlas.Proofs.Boundary.Turns
import BoundaryAtlas.Proofs.Grid.Uniqueness

/-!
# Kinks on the grid and in the plane

The kinks of a grid boundary are counted over all neighbours, those of its place in the plane only
over legs that have a length. So the plane has the kinks of the grid, and more of them only where a
boundary stops at a point and then goes on in another direction.
-/

namespace BoundaryAtlas.GridBoundary

open Boundary (bends legs steps)

theorem bends_place (d : Grid ℝ) (hx : 0 < d.xSpacing) (hy : 0 < d.ySpacing)
    (l : List GridPoint) : bends (steps (l.map (place d))) = turns l := by
  induction l with
  | nil => rfl
  | cons p l ih =>
    match l with
    | [] => rfl
    | [_] => rfl
    | q :: r :: l =>
      have hcross : Point.cross (place d q - place d p) (place d r - place d q) = 0 ↔
          GridPoint.collinear p q r = true := by
        unfold GridPoint.collinear
        rw [beq_iff_eq]
        exact straight_place_iff d hx hy p q r
      rw [turns, ← ih]
      simp only [List.map_cons, Boundary.steps_cons_cons, Boundary.bends_cons_cons, ne_eq, hcross,
        ite_not]

theorem IsValid.kinks_eq_bends {d : Grid ℝ} {b : GridBoundary} (h : b.IsValid d)
    (hx : 0 < d.xSpacing) (hy : 0 < d.ySpacing) :
    ∃ c : Boundary ℝ, b.toBoundary d = .ok c ∧ b.kinks = bends (steps c.points) ∧
      (b.points.IsChain (· ≠ ·) → c.points.IsChain (· ≠ ·)) := by
  obtain ⟨c, hc, hpoints, -⟩ := h.toBoundary_eq hx
  refine ⟨c, hc, ?_, fun hne => ?_⟩
  · rw [hpoints, bends_place d hx hy]
    rfl
  · rw [hpoints, List.isChain_map]
    exact hne.imp fun p q hpq => (place_injective d hx hy).ne hpq

/-- **Kinks.** A valid grid boundary has at most as many kinks as its place in the plane, and as
many if no point is repeated. A boundary of the search has the searched number of kinks on the grid
and in the plane. -/
theorem kinks_le_turnCount (d : Grid ℝ) (hd : d.validate = .ok ()) :
    (∀ b : GridBoundary, b.validate d = .ok () → ∃ c : Boundary ℝ, b.toBoundary d = .ok c ∧
      b.kinks ≤ c.turnCount 0 ∧ (b.points.IsChain (· ≠ ·) → b.kinks = c.turnCount 0)) ∧
    ∀ n, ∀ b ∈ (Search.new d n).toList, b.kinks = n ∧
      ∃ c : Boundary ℝ, b.toBoundary d = .ok c ∧ c.turnCount 0 = n := by
  obtain ⟨hx, hy, hnumX, -⟩ := d.pos_of_validate hd
  constructor
  · intro b hb
    rw [validate_eq_ok_iff] at hb
    obtain ⟨c, hc, hkinks, hplaces⟩ := hb.kinks_eq_bends hx hy
    refine ⟨c, hc, ?_, fun hne => ?_⟩
    · rw [hkinks, c.turnCount_zero]
      exact Boundary.bends_le_bends_legs c.points
    · rw [hkinks, c.turnCount_zero_of_ne (hplaces hne)]
  · intro n b hb
    rw [Search.mem_toList_new] at hb
    obtain ⟨c, hc, hkinks, hplaces⟩ := hb.isValid.kinks_eq_bends hx hy
    refine ⟨hb.kinks_eq, c, hc, ?_⟩
    rw [c.turnCount_zero_of_ne (hplaces (hb.isChain_ne hnumX)), ← hkinks, hb.kinks_eq]

def unitGrid : Grid ℝ := ⟨1, 2, 1, 1⟩

def tent : GridBoundary := ⟨[⟨0, 0⟩, ⟨1, 1⟩, ⟨2, 0⟩]⟩

/-- The tent with its tip repeated. -/
def heldTent : GridBoundary := ⟨[⟨0, 0⟩, ⟨1, 1⟩, ⟨1, 1⟩, ⟨2, 0⟩]⟩

theorem bends_legs_heldTent : bends (legs (heldTent.points.map (place unitGrid))) = 1 := by
  have hplaces : heldTent.points.map (place unitGrid) = [⟨0, 0⟩, ⟨1, 1⟩, ⟨1, 1⟩, ⟨2, 0⟩] := by
    simp [heldTent, place, unitGrid]
  have hlegs : legs (heldTent.points.map (place unitGrid)) = [⟨1, 1⟩, ⟨1, -1⟩] := by
    rw [hplaces, Boundary.legs_eq_filter]
    simp only [Boundary.steps_cons_cons, Point.sub_mk]
    norm_num [List.filter_cons, Point.norm_pos_iff, steps, neighbours]
  rw [hlegs]
  norm_num [Boundary.bends_cons_cons, Point.cross, bends, neighbours]

/-- Where the tip is repeated the kink is not seen on the grid. -/
theorem kinks_le_turnCount_stop :
    unitGrid.validate = .ok () ∧
    (heldTent.validate unitGrid = .ok () ∧ ∃ c : Boundary ℝ, heldTent.toBoundary unitGrid = .ok c ∧
      heldTent.kinks = 0 ∧ heldTent.kinks ≤ c.turnCount 0 ∧ c.turnCount 0 = 1) ∧
    tent ∈ (Search.new unitGrid 1).toList ∧
      ∃ c : Boundary ℝ, tent.toBoundary unitGrid = .ok c ∧ c.turnCount 0 = 1 := by
  have hgrid : unitGrid.validate = .ok () := by simp [Grid.validate, unitGrid]
  have hstop : heldTent.validate unitGrid = .ok () := by decide +kernel
  have htent : tent ∈ (Search.new unitGrid 1).toList := by decide +kernel
  obtain ⟨hvalid, hsearch⟩ := kinks_le_turnCount unitGrid hgrid
  obtain ⟨c, hc, hle, -⟩ := hvalid heldTent hstop
  obtain ⟨c', hc', hpoints, -⟩ :=
    ((validate_eq_ok_iff unitGrid heldTent).mp hstop).toBoundary_eq zero_lt_one
  cases hc.symm.trans hc'
  have hone : c.turnCount 0 = 1 := by rw [c.turnCount_zero, hpoints, bends_legs_heldTent]
  exact ⟨hgrid, ⟨hstop, c, hc, by decide, hle, hone⟩, htent, (hsearch 1 tent htent).2⟩

end BoundaryAtlas.GridBoundary
