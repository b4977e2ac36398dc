import BoundaryAtlas.Proofs.Plane.Length

/-!
# Counting kinks in exact arithmetic

At tolerance zero a kink is a pair of legs whose cross product is not zero. Legs of no length are
left out before the pairs are formed. This never hides a kink, but it can bring one to light.
-/

namespace BoundaryAtlas

theorem neighbours_cons_cons {β : Type} (p q : β) (l : List β) :
    neighbours (p :: q :: l) = (p, q) :: neighbours (q :: l) := rfl

namespace Boundary

/-! ## Bends -/

section

variable {α : Type} [ExactScalar α]

/-- The steps from point to point, of any length. -/
def steps (l : List (Point α)) : List (Point α) := (neighbours l).map fun (p, q) => q - p

/-- The number of steps that do not go on in the direction of the step before, or against it. -/
def bends (l : List (Point α)) : ℕ := (neighbours l).countP fun (u, v) => Point.cross u v ≠ 0

theorem steps_cons_cons (p q : Point α) (l : List (Point α)) :
    steps (p :: q :: l) = (q - p) :: steps (q :: l) := rfl

theorem bends_cons_cons (u v : Point α) (l : List (Point α)) :
    bends (u :: v :: l) = (if Point.cross u v ≠ 0 then 1 else 0) + bends (v :: l) := by
  unfold bends
  rw [neighbours_cons_cons, List.countP_cons, add_comm]
  simp only [decide_eq_true_eq]

theorem cross_zero_left (v : Point α) : Point.cross ⟨0, 0⟩ v = 0 := by simp [Point.cross]

theorem cross_zero_right (u : Point α) : Point.cross u ⟨0, 0⟩ = 0 := by simp [Point.cross]

theorem bends_le_cons (u : Point α) (l : List (Point α)) : bends l ≤ bends (u :: l) := by
  cases l with
  | nil => exact Nat.zero_le _
  | cons v l =>
    rw [bends_cons_cons]
    exact Nat.le_add_left _ _

theorem bends_zero_cons (l : List (Point α)) : bends (⟨0, 0⟩ :: l) = bends l := by
  cases l with
  | nil => rfl
  | cons v l => simp [bends_cons_cons, cross_zero_left]

theorem bends_le_bends_filter_cons (keep : Point α → Bool)
    (hkeep : ∀ v, keep v = false → v = ⟨0, 0⟩) (u : Point α) (l : List (Point α)) :
    bends (u :: l) ≤ bends (u :: l.filter keep) := by
  induction l generalizing u with
  | nil => exact le_refl _
  | cons v l ih =>
    rw [bends_cons_cons]
    cases hv : keep v with
    | false =>
      obtain rfl := hkeep v hv
      rw [List.filter_cons_of_neg (by simp [hv])]
      simp only [cross_zero_right, ne_eq, not_true_eq_false, if_false, zero_add]
      calc bends (⟨0, 0⟩ :: l) ≤ bends (⟨0, 0⟩ :: l.filter keep) := ih _
        _ = bends (l.filter keep) := bends_zero_cons _
        _ ≤ bends (u :: l.filter keep) := bends_le_cons u _
    | true =>
      rw [List.filter_cons_of_pos hv, bends_cons_cons]
      exact Nat.add_le_add_left (ih v) _

theorem bends_le_bends_filter (keep : Point α → Bool)
    (hkeep : ∀ v, keep v = false → v = ⟨0, 0⟩) (l : List (Point α)) :
    bends l ≤ bends (l.filter keep) := by
  rw [← bends_zero_cons l, ← bends_zero_cons (l.filter keep)]
  exact bends_le_bends_filter_cons keep hkeep _ l

end

/-! ## Kinks -/

theorem legs_eq_filter (l : List (Point ℝ)) :
    legs l = (steps l).filter fun u => Scalar.ofNat 0 < u.norm := rfl

theorem bends_le_bends_legs (l : List (Point ℝ)) : bends (steps l) ≤ bends (legs l) := by
  rw [legs_eq_filter]
  apply bends_le_bends_filter
  intro v hv
  simp only [ExactScalar.ofNat_eq, Nat.cast_zero, decide_eq_false_iff_not, Point.norm_pos_iff,
    not_not] at hv
  exact Point.ext hv.1 hv.2

theorem legs_eq_steps (l : List (Point ℝ)) (hne : l.IsChain (· ≠ ·)) : legs l = steps l := by
  rw [legs_eq_filter, List.filter_eq_self]
  intro u hu
  obtain ⟨⟨p, q⟩, hpq, rfl⟩ := List.mem_map.mp hu
  have hne' : p ≠ q := (forall_neighbours_iff _ l).mpr hne _ hpq
  simpa using (Point.norm_sub_pos_iff p q).mpr hne'

theorem abs_turnSine_pos_iff (u v : Point ℝ) (hu : 0 < u.norm) (hv : 0 < v.norm) :
    0 < |turnSine u v| ↔ Point.cross u v ≠ 0 := by
  unfold turnSine
  rw [abs_pos, Ne, div_eq_zero_iff, or_iff_left (mul_pos hu hv).ne']

theorem turnCount_zero (b : Boundary ℝ) : b.turnCount 0 = bends (legs b.points) := by
  unfold turnCount bends
  rw [List.countP_eq_length_filter]
  congr 1
  refine List.filter_congr fun ⟨u, v⟩ huv => ?_
  obtain ⟨hu, hv⟩ := List.of_mem_zip huv
  have hpos : ∀ w ∈ legs b.points, 0 < w.norm := by
    intro w hw
    rw [legs_eq_filter] at hw
    simpa using (List.mem_filter.mp hw).2
  simp only [ExactScalar.abs_eq, decide_eq_decide]
  exact abs_turnSine_pos_iff u v (hpos u hu) (hpos v (List.mem_of_mem_tail hv))

theorem turnCount_zero_of_ne (b : Boundary ℝ) (hne : b.points.IsChain (· ≠ ·)) :
    b.turnCount 0 = bends (steps b.points) := by
  rw [turnCount_zero, legs_eq_steps b.points hne]

end Boundary

end BoundaryAtlas
