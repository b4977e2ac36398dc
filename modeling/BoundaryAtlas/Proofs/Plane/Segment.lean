import Mathlib.Data.Set.Insert
import BoundaryAtlas.Proofs.Plane.Straight

/-!
# Segments

The points between two points of the plane.
-/

namespace BoundaryAtlas.Point

variable {α : Type} [ExactScalar α]

/-- The points from `p` to `q`. -/
def segment (p q : Point α) : Set (Point α) :=
  {z | ∃ s : α, 0 ≤ s ∧ s ≤ 1 ∧ z.x = p.x + s * (q.x - p.x) ∧ z.y = p.y + s * (q.y - p.y)}

theorem left_mem_segment (p q : Point α) : p ∈ segment p q :=
  ⟨0, le_refl 0, zero_le_one, by ring, by ring⟩

theorem right_mem_segment (p q : Point α) : q ∈ segment p q :=
  ⟨1, zero_le_one, le_refl 1, by ring, by ring⟩

theorem mem_segment_comm {p q z : Point α} (h : z ∈ segment p q) : z ∈ segment q p := by
  obtain ⟨s, h0, h1, hzx, hzy⟩ := h
  refine ⟨1 - s, by linarith, by linarith, ?_, ?_⟩
  · rw [hzx]; ring
  · rw [hzy]; ring

theorem eq_of_mem_segment {p q z : Point α} (hz : z ∈ segment p q) (hq : q ∈ segment p z) :
    z = q := by
  obtain ⟨s, h0, h1, hzx, hzy⟩ := hz
  obtain ⟨t, ht0, ht1, hqx, hqy⟩ := hq
  rcases h1.eq_or_lt with rfl | h1
  · exact Point.ext (by rw [hzx]; ring) (by rw [hzy]; ring)
  · -- A shorter segment reaches its end only if it has no length.
    have hts : 0 < 1 - t * s := by nlinarith
    have hx : (1 - t * s) * (q.x - p.x) = 0 := by rw [hzx] at hqx; linear_combination hqx
    have hy : (1 - t * s) * (q.y - p.y) = 0 := by rw [hzy] at hqy; linear_combination hqy
    have hx := (mul_eq_zero_iff_left hts.ne').mp hx
    have hy := (mul_eq_zero_iff_left hts.ne').mp hy
    apply Point.ext
    · rw [hzx, hx]; linear_combination - hx
    · rw [hzy, hy]; linear_combination - hy

theorem mem_segment_iff_of_lt {p q z : Point α} (h : p.x < q.x) :
    z ∈ segment p q ↔ p.x ≤ z.x ∧ z.x ≤ q.x ∧ z.y = p.y + steepness p q * (z.x - p.x) := by
  have hpos : 0 < q.x - p.x := sub_pos.mpr h
  have hsteepness := steepness_mul p q h
  constructor
  · rintro ⟨s, h0, h1, hzx, hzy⟩
    refine ⟨?_, ?_, ?_⟩
    · rw [hzx]; nlinarith
    · rw [hzx]; nlinarith
    · rw [hzx, hzy]; linear_combination - s * hsteepness
  · rintro ⟨hle, hge, hy⟩
    refine ⟨(z.x - p.x) / (q.x - p.x), div_nonneg (sub_nonneg.mpr hle) hpos.le,
      (div_le_one hpos).mpr (by linarith), ?_, ?_⟩
    · rw [div_mul_cancel₀ _ hpos.ne']; ring
    · rw [hy, steepness]; ring

theorem x_eq_of_mem_segment {p q z : Point α} (h : p.x = q.x) (hz : z ∈ segment p q) :
    z.x = q.x := by
  obtain ⟨s, -, -, hzx, -⟩ := hz
  rw [hzx, h]
  ring

theorem x_le_of_mem_segment {p q z : Point α} (h : p.x ≤ q.x) (hz : z ∈ segment p q) :
    p.x ≤ z.x ∧ z.x ≤ q.x := by
  rcases h.eq_or_lt with h | h
  · rw [x_eq_of_mem_segment h hz]
    exact ⟨h.le, le_refl _⟩
  · obtain ⟨hle, hge, -⟩ := (mem_segment_iff_of_lt h).mp hz
    exact ⟨hle, hge⟩

theorem exists_mem_segment {p q : Point α} (h : p.x < q.x) {x : α} (hle : p.x ≤ x)
    (hge : x ≤ q.x) : ∃ z ∈ segment p q, z.x = x :=
  ⟨⟨x, p.y + steepness p q * (x - p.x)⟩, (mem_segment_iff_of_lt h).mpr ⟨hle, hge, rfl⟩, rfl⟩

theorem eq_of_x_eq {p q z w : Point α} (h : p.x < q.x) (hz : z ∈ segment p q)
    (hw : w ∈ segment p q) (hx : z.x = w.x) : z = w := by
  obtain ⟨-, -, hzy⟩ := (mem_segment_iff_of_lt h).mp hz
  obtain ⟨-, -, hwy⟩ := (mem_segment_iff_of_lt h).mp hw
  exact Point.ext hx (by rw [hzy, hwy, hx])

/-! ## Half-planes -/

/-- The points on one side of a line and on it. -/
def halfPlane (a b c : α) : Set (Point α) := {z | 0 ≤ a * z.x + b * z.y + c}

theorem mem_halfPlane_iff (a b c : α) (z : Point α) :
    z ∈ halfPlane a b c ↔ 0 ≤ a * z.x + b * z.y + c := Iff.rfl

theorem mem_halfPlane_of_mem_segment {a b c : α} {p q z : Point α} (hz : z ∈ segment p q)
    (hp : p ∈ halfPlane a b c) (hq : q ∈ halfPlane a b c) : z ∈ halfPlane a b c := by
  rw [mem_halfPlane_iff] at *
  obtain ⟨s, h0, h1, hzx, hzy⟩ := hz
  have hweights : a * z.x + b * z.y + c =
      (1 - s) * (a * p.x + b * p.y + c) + s * (a * q.x + b * q.y + c) := by
    rw [hzx, hzy]
    ring
  rw [hweights]
  exact add_nonneg (mul_nonneg (sub_nonneg.mpr h1) hp) (mul_nonneg h0 hq)

end BoundaryAtlas.Point
