import Mathlib.Analysis.Real.Sqrt
import BoundaryAtlas.Proofs.Boundary.Interpolation
import BoundaryAtlas.Boundary.Simplify

/-!
# Half turns

Half a turn makes a boundary of a boundary, and another one takes it back. The legs come out in
reversed order and keep their directions, so there are as many kinks.
-/

namespace BoundaryAtlas

/-! ## Neighbours in a turned list -/

theorem neighbours_map {β γ : Type} (f : β → γ) (l : List β) :
    neighbours (l.map f) = (neighbours l).map (Prod.map f f) := by
  rw [neighbours, ← List.map_tail, List.zip_map]
  rfl

theorem neighbours_reverse {β : Type} (l : List β) :
    neighbours l.reverse = ((neighbours l).map Prod.swap).reverse := by
  refine List.ext_getElem (by simp [length_neighbours]) fun i h h' => ?_
  rw [length_neighbours, List.length_reverse] at h
  have hleft : l.length - 1 - (i + 1) + 1 = l.length - 1 - i := by omega
  have hright : l.length - 1 - 1 - i = l.length - 1 - (i + 1) := by omega
  rw [getElem_neighbours _ i _ (by rw [List.length_reverse]; omega)]
  simp only [List.getElem_reverse, List.getElem_map, List.length_map, length_neighbours]
  rw [getElem_neighbours l _ _ (by omega)]
  simp only [hleft, hright, Prod.swap]

namespace Boundary

variable {α : Type} [ExactScalar α]

/-! ## Points -/

/-- Half a turn about the center of the box. -/
abbrev turned (box : Box α) : Point α → Point α := (AffineMap.halfTurn box).apply

theorem turned_x (box : Box α) (p : Point α) :
    (turned box p).x = box.x.lo + box.x.hi - p.x := by
  rw [turned, halfTurn_apply]

theorem turned_y (box : Box α) (p : Point α) :
    (turned box p).y = box.y.lo + box.y.hi - p.y := by
  rw [turned, halfTurn_apply]

theorem turned_turned (box : Box α) (p : Point α) : turned box (turned box p) = p :=
  Point.ext (by rw [turned_x, turned_x, sub_sub_cancel])
    (by rw [turned_y, turned_y, sub_sub_cancel])

theorem turned_sub_turned (box : Box α) (p q : Point α) :
    turned box p - turned box q = q - p := by
  apply Point.ext
  · change (turned box p).x - (turned box q).x = q.x - p.x
    rw [turned_x, turned_x, sub_sub_sub_cancel_left]
  · change (turned box p).y - (turned box q).y = q.y - p.y
    rw [turned_y, turned_y, sub_sub_sub_cancel_left]

/-! ## Boundaries -/

theorem length_invert (b : Boundary α) (box : Box α) :
    (b.invert box).points.length = b.points.length := by
  simp [invert]

theorem invert_invert (b : Boundary α) (box : Box α) : (b.invert box).invert box = b := by
  obtain ⟨points, hne⟩ := b
  have hback : (turned box) ∘ (turned box) = id := funext (turned_turned box)
  simp only [invert, ← List.map_reverse, List.reverse_reverse, List.map_map, mk.injEq]
  rw [hback, List.map_id]

theorem IsAccepted.ofPoints_invert {b : Boundary α} (hb : b.IsAccepted) (box : Box α) :
    ofPoints (b.invert box).points = .ok (b.invert box) :=
  ofPoints_eq _ (b.invert box).nonempty (b.ordered_invert box hb.ordered.isChain)

theorem IsAccepted.invert {b : Boundary α} (hb : b.IsAccepted) (box : Box α) :
    (b.invert box).IsAccepted :=
  isAccepted_of_ofPoints (hb.ofPoints_invert box)

/-! ## Kinks -/

variable [HasSqrt α]

theorem legs_invert (b : Boundary α) (box : Box α) :
    legs (b.invert box).points = (legs b.points).reverse := by
  unfold legs
  rw [Boundary.invert, neighbours_map, neighbours_reverse, List.map_reverse, List.map_reverse,
    List.filter_reverse, List.map_map, List.map_map]
  congr 2
  exact List.map_congr_left fun s _ => turned_sub_turned box s.1 s.2

theorem abs_turnSine_swap (u v : Point α) : |turnSine v u| = |turnSine u v| := by
  have hcross : Point.cross v u = -Point.cross u v := by
    simp only [Point.cross]
    ring
  rw [turnSine, turnSine, hcross, mul_comm, neg_div, abs_neg]

theorem turnCount_invert (b : Boundary α) (box : Box α) (tol : α) :
    (b.invert box).turnCount tol = b.turnCount tol := by
  unfold turnCount
  rw [legs_invert, neighbours_reverse, List.filter_reverse, List.length_reverse, List.filter_map,
    List.length_map]
  congr 1
  refine List.filter_congr fun s _ => ?_
  simp only [Function.comp_apply, Prod.swap, ExactScalar.abs_eq, abs_turnSine_swap]

/-- **Half turns.** After half a turn in any box a boundary passes the checks of a new boundary. It
has as many points, another half turn takes each of them back, and it has as many kinks at every
tolerance. -/
theorem half_turn_keeps_shape (b : Boundary α) (hb : ofPoints b.points = .ok b) (box : Box α) :
    ofPoints (b.invert box).points = .ok (b.invert box) ∧
      (b.invert box).points.length = b.points.length ∧
      (b.invert box).invert box = b ∧
      ∀ tol, (b.invert box).turnCount tol = b.turnCount tol :=
  ⟨(isAccepted_of_ofPoints hb).ofPoints_invert box, b.length_invert box, b.invert_invert box,
    b.turnCount_invert box⟩

noncomputable instance : HasSqrt ℝ := ⟨Real.sqrt⟩

theorem half_turn_keeps_shape_fall :
    ofPoints (fall ℝ).points = .ok (fall ℝ) ∧
      ((fall ℝ).invert .canonical).invert .canonical = fall ℝ ∧
      ((fall ℝ).invert .canonical).turnCount 0 = (fall ℝ).turnCount 0 := by
  have hb : ofPoints (fall ℝ).points = .ok (fall ℝ) := by
    refine ofPoints_eq _ (fall ℝ).nonempty ?_
    simp only [fall, List.isChain_cons_cons, ExactScalar.ofNat_eq]
    norm_num
  obtain ⟨-, -, hback, hcount⟩ := half_turn_keeps_shape (fall ℝ) hb .canonical
  exact ⟨hb, hback, hcount 0⟩

end Boundary

end BoundaryAtlas
