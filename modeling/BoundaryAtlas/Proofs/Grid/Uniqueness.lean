import BoundaryAtlas.Proofs.Grid.Enumeration
import BoundaryAtlas.Proofs.Grid.Place
import BoundaryAtlas.Proofs.Plane.Trail

/-!
# A polyline has one canonical form

Two boundaries of the search that cover the same points of the plane are the same.
-/

namespace BoundaryAtlas

variable {α β : Type}

open Point (Bent)

namespace GridBoundary

/-- The points of the plane that a boundary covers, at the spacings of a grid. -/
def trail [ExactScalar α] (e : Grid α) (b : GridBoundary) : Set (Point α) :=
  Point.trail (b.points.map (place e))

theorem isChain_ne (p q r : GridPoint) (l : List GridPoint)
    (h : ∀ a b c, [a, b, c] <:+: p :: q :: r :: l → GridPoint.cross a b c ≠ 0) :
    (p :: q :: r :: l).IsChain (· ≠ ·) := by
  induction l generalizing p q r with
  | nil =>
    obtain ⟨hpq, hqr⟩ := GridPoint.ne_of_cross_ne_zero p q r (h p q r ⟨[], [], rfl⟩)
    simp [hpq, hqr]
  | cons s l ih =>
    obtain ⟨hpq, -⟩ := GridPoint.ne_of_cross_ne_zero p q r (h p q r ⟨[], s :: l, rfl⟩)
    exact List.isChain_cons_cons.mpr
      ⟨hpq, ih q r s fun a b c habc => h a b c (List.infix_cons habc)⟩

namespace IsCanonical

variable {d : Grid β} {n : Nat} {b : GridBoundary}

theorem isChain_ne (h : b.IsCanonical d n) (hd : 1 ≤ d.numX) : b.points.IsChain (· ≠ ·) := by
  match hl : b.points with
  | [] => exact List.isChain_nil
  | [_] => exact List.isChain_singleton _
  | [p, q] =>
    have hp := h.starts p (by simp [hl])
    have hq := h.ends q (by simp [hl])
    rw [List.isChain_pair]
    rintro rfl
    omega
  | p :: q :: r :: l => exact GridBoundary.isChain_ne p q r l (hl ▸ h.bends)

variable [ExactScalar α]

theorem bent (h : b.IsCanonical d n) (hd : 1 ≤ d.numX) (e : Grid α) (hx : 0 < e.xSpacing)
    (hy : 0 < e.ySpacing) : Bent (b.points.map (place e)) where
  ordered := ordered_place e hx b.points h.ordered
  distinct := by
    rw [List.isChain_map]
    exact (h.isChain_ne hd).imp fun p q hpq => (place_injective e hx hy).ne hpq
  bends := by
    intro p q r hpqr
    obtain ⟨l, hl, heq⟩ := List.infix_map_iff.mp hpqr
    match l, heq with
    | [o, o', o''], heq =>
      simp only [List.map_cons, List.map_nil, List.cons.injEq, and_true] at heq
      obtain ⟨rfl, rfl, rfl⟩ := heq
      rw [straight_place_iff e hx hy]
      exact h.bends o o' o'' hl

end IsCanonical

end GridBoundary

open GridBoundary in
/-- The search emits no two boundaries that cover the same points of the plane, at whatever
spacings they are drawn. -/
theorem Search.trail_injective [ExactScalar α] (d : Grid β) (hd : 1 ≤ d.numX) (e : Grid α)
    (hx : 0 < e.xSpacing) (hy : 0 < e.ySpacing) {m n : Nat} {a b : GridBoundary}
    (ha : a ∈ (new d m).toList) (hb : b ∈ (new d n).toList) (h : a.trail e = b.trail e) :
    a = b := by
  rw [mem_toList_new] at ha hb
  obtain ⟨p, hp, hp0⟩ := ha.isValid.starts
  obtain ⟨p', hp', hp0'⟩ := hb.isValid.starts
  obtain ⟨z, hz, hzx⟩ := ha.isValid.ends
  have hhead : place e p ∈ (a.points.map (place e)).head? := by
    rw [List.head?_map]
    exact Option.mem_map_of_mem _ hp
  have hhead' : place e p' ∈ (b.points.map (place e)).head? := by
    rw [List.head?_map]
    exact Option.mem_map_of_mem _ hp'
  have hcol : (place e p).x = (place e p').x := by rw [place_x, place_x, hp0, hp0']
  have hlast : place e z ∈ a.points.map (place e) := List.mem_map_of_mem (List.mem_of_getLast? hz)
  have hlt : (place e p).x < (place e z).x := by
    have : (0 : α) < d.numX := Nat.cast_pos.mpr hd
    rw [place_x, place_x, hp0, hzx, Nat.cast_zero, zero_mul]
    positivity
  have hplaces := (ha.bent hd e hx hy).eq_of_trail_eq (hb.bent hd e hx hy) h hhead hhead' hcol
    hlast hlt
  have hpoints := (place_injective e hx hy).list_map hplaces
  cases a
  cases b
  exact congrArg _ hpoints

theorem Search.trail_injective_corner :
    let d : Grid ℝ := ⟨1, 1, 1, 1⟩
    let b : GridBoundary := ⟨[⟨0, 0⟩, ⟨0, 1⟩, ⟨1, 1⟩]⟩
    1 ≤ d.numX ∧ 0 < d.xSpacing ∧ 0 < d.ySpacing ∧ b ∈ (new d 1).toList ∧
      b.trail d = b.trail d ∧ b = b := by
  intro d b
  have hx : 0 < d.xSpacing := zero_lt_one
  have hy : 0 < d.ySpacing := zero_lt_one
  have hb : b ∈ (new d 1).toList := by decide +kernel
  exact ⟨le_refl 1, hx, hy, hb, rfl, trail_injective d (le_refl 1) d hx hy hb hb rfl⟩

end BoundaryAtlas
