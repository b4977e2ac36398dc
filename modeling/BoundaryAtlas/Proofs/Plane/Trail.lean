import Mathlib.Data.List.Chain
import Mathlib.Data.List.Infix
import BoundaryAtlas.Proofs.Plane.Segment

/-!
# A bent polyline can be read off its points

The trail of a polyline is the set of all points on it. If the polyline never goes back and bends
at every inner point, then its trail and its first point determine it.
-/

namespace BoundaryAtlas.Point

variable {α : Type} [ExactScalar α]

/-- The points on a polyline: those of the segments between its neighbours. -/
def trail (l : List (Point α)) : Set (Point α) := {z | ∃ s ∈ neighbours l, z ∈ segment s.1 s.2}

/-- The points on a polyline that starts at `p`. -/
def trailFrom (p : Point α) : List (Point α) → Set (Point α)
  | [] => {p}
  | q :: l => segment p q ∪ trailFrom q l

theorem trail_singleton (p : Point α) : trail [p] = ∅ := by
  simp [trail, neighbours]

theorem trail_cons_cons (p q : Point α) (l : List (Point α)) :
    trail (p :: q :: l) = segment p q ∪ trail (q :: l) := by
  ext z
  simp [trail, neighbours]

theorem trail_cons (p : Point α) (l : List (Point α)) (h : l ≠ []) :
    trail (p :: l) = trailFrom p l := by
  induction l generalizing p with
  | nil => exact absurd rfl h
  | cons q l ih =>
    rw [trail_cons_cons, trailFrom]
    cases l with
    | nil =>
      rw [trail_singleton, trailFrom, Set.union_empty, eq_comm, Set.union_eq_left]
      exact Set.singleton_subset_iff.mpr (right_mem_segment p q)
    | cons r l => rw [ih q (List.cons_ne_nil r l)]

theorem mem_trailFrom {p q : Point α} {l : List (Point α)} (h : q ∈ p :: l) :
    q ∈ trailFrom p l := by
  induction l generalizing p with
  | nil => exact List.mem_singleton.mp h
  | cons r l ih =>
    rcases List.mem_cons.mp h with rfl | h
    · exact Or.inl (left_mem_segment q r)
    · exact Or.inr (ih h)

/-- A polyline that never goes back, never stays, and bends at every inner point. -/
structure Bent (l : List (Point α)) : Prop where
  ordered : l.IsChain fun p q => p.x ≤ q.x
  distinct : l.IsChain (· ≠ ·)
  bends : ∀ p q r, [p, q, r] <:+: l → ¬ Straight p q r

namespace Bent

variable {p q r : Point α} {l : List (Point α)}

theorem tail (h : Bent (p :: l)) : Bent l :=
  ⟨h.ordered.tail, h.distinct.tail, fun a b c habc => h.bends a b c (List.infix_cons habc)⟩

theorem x_le (h : Bent (p :: q :: l)) : p.x ≤ q.x := (List.isChain_cons_cons.mp h.ordered).1

theorem ne (h : Bent (p :: q :: l)) : p ≠ q := (List.isChain_cons_cons.mp h.distinct).1

theorem x_lt_of_vertical (h : Bent (p :: q :: r :: l)) (hpq : p.x = q.x) : q.x < r.x := by
  apply lt_of_le_of_ne h.tail.x_le
  intro hqr
  apply h.bends p q r ⟨[], l, rfl⟩
  rw [straight_iff, hpq, hqr]
  ring

theorem x_le_of_mem (h : Bent (p :: l)) {z : Point α} (hz : z ∈ trailFrom p l) : p.x ≤ z.x := by
  induction l generalizing p with
  | nil => exact (congrArg Point.x hz).ge
  | cons q l ih =>
    rcases hz with hz | hz
    · exact (x_le_of_mem_segment h.x_le hz).1
    · exact h.x_le.trans (ih h.tail hz)

theorem eq_first (h : Bent (p :: l)) (hl : ∀ q ∈ l.head?, p.x < q.x) {z : Point α}
    (hz : z ∈ trailFrom p l) (hx : z.x = p.x) : z = p := by
  cases l with
  | nil => exact hz
  | cons q l =>
    have hpq := hl q rfl
    rcases hz with hz | hz
    · exact eq_of_x_eq hpq hz (left_mem_segment p q) hx
    · have := h.tail.x_le_of_mem hz
      rw [hx] at this
      exact absurd hpq this.not_gt

theorem mem_segment_of_x_lt (h : Bent (q :: l)) {z : Point α} (hz : z ∈ trailFrom p (q :: l))
    (hx : z.x < q.x) : z ∈ segment p q :=
  hz.resolve_right fun hz => (h.x_le_of_mem hz).not_gt hx

theorem mem_segment_of_vertical (h : Bent (p :: q :: l)) (hpq : p.x = q.x) {z : Point α}
    (hz : z ∈ trailFrom p (q :: l)) (hx : z.x = p.x) : z ∈ segment p q := by
  rcases hz with hz | hz
  · exact hz
  · have hlt : ∀ r ∈ l.head?, q.x < r.x := by
      intro r hr
      obtain ⟨l', rfl⟩ := List.head?_eq_some_iff.mp hr
      exact h.x_lt_of_vertical hpq
    rw [h.tail.eq_first hlt hz (hx.trans hpq)]
    exact right_mem_segment p q

theorem meet (h : Bent (p :: q :: l)) {z : Point α} (hz : z ∈ segment p q)
    (hz' : z ∈ trailFrom q l) : z = q := by
  have hx : z.x = q.x := le_antisymm (x_le_of_mem_segment h.x_le hz).2 (h.tail.x_le_of_mem hz')
  rcases h.x_le.eq_or_lt with hpq | hpq
  · apply h.tail.eq_first ?_ hz' hx
    intro r hr
    obtain ⟨l', rfl⟩ := List.head?_eq_some_iff.mp hr
    exact h.x_lt_of_vertical hpq
  · exact eq_of_x_eq hpq hz (right_mem_segment p q) hx

/-! ## From the trail to the points -/

variable {p' q' : Point α} {l' : List (Point α)}

theorem steepness_eq (h' : Bent (p :: q' :: l'))
    (heq : trailFrom p (q :: l) = trailFrom p (q' :: l')) (hq : p.x < q.x) (hq' : p.x < q'.x) :
    steepness p q = steepness p q' := by
  have hmin : p.x < min q.x q'.x := lt_min hq hq'
  have hle : min q.x q'.x ≤ q.x := min_le_left _ _
  have hle' : min q.x q'.x ≤ q'.x := min_le_right _ _
  obtain ⟨z, hz, hx⟩ : ∃ z ∈ segment p q, z.x = (p.x + min q.x q'.x) / 2 :=
    exists_mem_segment hq (by linarith) (by linarith)
  have hz' : z ∈ segment p q' := by
    apply h'.tail.mem_segment_of_x_lt
    · rw [← heq]
      exact Or.inl hz
    · linarith
  obtain ⟨-, -, hy⟩ := (mem_segment_iff_of_lt hq).mp hz
  obtain ⟨-, -, hy'⟩ := (mem_segment_iff_of_lt hq').mp hz'
  have hpos : z.x - p.x ≠ 0 := (by linarith : 0 < z.x - p.x).ne'
  exact mul_right_cancel₀ hpos (by linarith)

theorem x_le_of_steepness_eq (h : Bent (p :: q :: l)) (h' : Bent (p :: q' :: l'))
    (heq : trailFrom p (q :: l) = trailFrom p (q' :: l')) (hq : p.x < q.x) (hq' : p.x < q'.x)
    (hsteepness : steepness p q = steepness p q') : q'.x ≤ q.x := by
  by_contra hlt
  rw [not_le] at hlt
  -- The other polyline goes straight on past `q`, and so it misses what comes after the bend there.
  have hline : ∀ z ∈ trailFrom p (q :: l), z.x < q'.x →
      z.y = p.y + steepness p q * (z.x - p.x) := by
    intro z hz hx
    rw [heq] at hz
    rw [hsteepness]
    exact ((mem_segment_iff_of_lt hq').mp (h'.tail.mem_segment_of_x_lt hz hx)).2.2
  have hqy := steepness_mul p q hq
  have hmem : q' ∈ trailFrom q l := by
    have : q' ∈ trailFrom p (q :: l) := by
      rw [heq]
      exact Or.inl (right_mem_segment p q')
    refine this.resolve_left fun hseg => ?_
    exact (x_le_of_mem_segment hq.le hseg).2.not_gt hlt
  cases l with
  | nil => exact hlt.ne (congrArg Point.x hmem).symm
  | cons r l =>
    rcases h.tail.x_le.eq_or_lt with hr | hr
    · -- A vertical segment leaves the line at once.
      have hry := hline r (Or.inr (Or.inl (right_mem_segment q r))) (hr ▸ hlt)
      exact h.tail.ne (Point.ext hr (by rw [hry, ← hr]; linarith))
    · -- The next segment begins on the line, so there is no bend at `q`.
      have hmin : q.x < min r.x ((q.x + q'.x) / 2) := lt_min hr (by linarith)
      have hle : min r.x ((q.x + q'.x) / 2) ≤ (q.x + q'.x) / 2 := min_le_right _ _
      obtain ⟨z, hz, hx⟩ := exists_mem_segment hr hmin.le (min_le_left _ _)
      have hzy := hline z (Or.inr (Or.inl hz)) (by linarith)
      obtain ⟨-, -, hzy'⟩ := (mem_segment_iff_of_lt hr).mp hz
      have hpos : z.x - q.x ≠ 0 := (by linarith : 0 < z.x - q.x).ne'
      have hqr : steepness q r = steepness p q := mul_right_cancel₀ hpos (by linarith)
      have hry := steepness_mul q r hr
      rw [hqr] at hry
      apply h.bends p q r ⟨[], l, rfl⟩
      rw [straight_iff, ← hry, ← hqy]
      ring

/-- The first point and the trail determine the second point. -/
theorem second_eq (h : Bent (p :: q :: l)) (h' : Bent (p :: q' :: l'))
    (heq : trailFrom p (q :: l) = trailFrom p (q' :: l')) : q = q' := by
  have hq : q ∈ trailFrom p (q' :: l') := heq ▸ Or.inl (right_mem_segment p q)
  have hq' : q' ∈ trailFrom p (q :: l) := heq ▸ Or.inl (right_mem_segment p q')
  rcases h.x_le.eq_or_lt with hx | hx <;> rcases h'.x_le.eq_or_lt with hx' | hx'
  · exact eq_of_mem_segment (h'.mem_segment_of_vertical hx' hq hx.symm)
      (h.mem_segment_of_vertical hx hq' hx'.symm)
  · exact absurd (h'.eq_first (by simpa using hx') hq hx.symm).symm h.ne
  · exact absurd (h.eq_first (by simpa using hx) hq' hx'.symm).symm h'.ne
  · have hsteepness := h'.steepness_eq heq hx hx'
    have hle := h.x_le_of_steepness_eq h' heq hx hx' hsteepness
    have hge := h'.x_le_of_steepness_eq h heq.symm hx' hx hsteepness.symm
    have hqx := le_antisymm hge hle
    have hy := steepness_mul p q hx
    have hy' := steepness_mul p q' hx'
    rw [← hsteepness, ← hqx] at hy'
    exact Point.ext hqx (by linarith)

theorem trailFrom_subset (h : Bent (p :: q :: l))
    (hsub : trailFrom p (q :: l) ⊆ trailFrom p (q :: l')) : trailFrom q l ⊆ trailFrom q l' := by
  intro z hz
  rcases hsub (Or.inr hz) with hz' | hz'
  · rw [h.meet hz' hz]
    exact mem_trailFrom List.mem_cons_self
  · exact hz'

theorem trailFrom_injective (h : Bent (p :: l)) (h' : Bent (p :: l'))
    (heq : trailFrom p l = trailFrom p l') : l = l' := by
  induction l generalizing p l' with
  | nil =>
    cases l' with
    | nil => rfl
    | cons q' l' =>
      have hmem : q' ∈ trailFrom p [] := heq ▸ Or.inl (right_mem_segment p q')
      exact absurd hmem.symm h'.ne
  | cons q l ih =>
    cases l' with
    | nil =>
      have hmem : q ∈ trailFrom p [] := heq ▸ Or.inl (right_mem_segment p q)
      exact absurd hmem.symm h.ne
    | cons q' l' =>
      obtain rfl := h.second_eq h' heq
      have htail := (h.trailFrom_subset heq.subset).antisymm (h'.trailFrom_subset heq.superset)
      rw [ih h.tail h'.tail htail]

theorem exists_third (h : Bent (p :: q :: l)) (hq : p.x = q.x) {z : Point α}
    (hz : z ∈ trailFrom p (q :: l)) (hx : p.x < z.x) : ∃ r l₁, l = r :: l₁ ∧ q.x < r.x := by
  cases l with
  | nil =>
    have : z.x = q.x := by
      rcases hz with hz | hz
      · exact x_eq_of_mem_segment hq hz
      · exact congrArg Point.x hz
    exact absurd hq (this ▸ hx).ne
  | cons r l => exact ⟨r, l, rfl, h.x_lt_of_vertical hq⟩

theorem second_eq_of_vertical {r r' : Point α} (h : Bent (p :: q :: r :: l))
    (h' : Bent (p' :: q' :: r' :: l'))
    (heq : trailFrom p (q :: r :: l) = trailFrom p' (q' :: r' :: l')) (hq : p.x = q.x)
    (hq' : p'.x = q'.x) (hx : q.x = q'.x) : q = q' := by
  have hr := h.x_lt_of_vertical hq
  have hr' := h'.x_lt_of_vertical hq'
  -- Right of the column both polylines are one line, and two of its points fix its value there.
  have hy : ∀ x, q.x < x → x < min r.x r'.x →
      q.y + steepness q r * (x - q.x) = q'.y + steepness q' r' * (x - q.x) := by
    intro x hlt hmin
    obtain ⟨hxr, hxr'⟩ := lt_min_iff.mp hmin
    obtain ⟨z, hz, rfl⟩ := exists_mem_segment hr hlt.le hxr.le
    have hz' : z ∈ trailFrom p' (q' :: r' :: l') := heq ▸ Or.inr (Or.inl hz)
    have hz' := hz'.resolve_left fun hseg => (x_eq_of_mem_segment hq' hseg).not_gt (hx ▸ hlt)
    have hz' := h'.tail.tail.mem_segment_of_x_lt hz' hxr'
    rw [← ((mem_segment_iff_of_lt hr).mp hz).2.2, ((mem_segment_iff_of_lt hr').mp hz').2.2, hx]
  have hmin : q.x < min r.x r'.x := lt_min hr (hx ▸ hr')
  have hone := hy ((q.x + min r.x r'.x) / 2) (by linarith) (by linarith)
  have htwo := hy ((3 * q.x + min r.x r'.x) / 4) (by linarith) (by linarith)
  exact Point.ext hx (by linear_combination 2 * htwo - hone)

theorem first_eq (h : Bent (p :: l)) (h' : Bent (p' :: l'))
    (heq : trailFrom p l = trailFrom p' l') (hx : p.x = p'.x) {z : Point α}
    (hz : z ∈ trailFrom p l) (hlt : p.x < z.x) : p = p' := by
  have hp : p ∈ trailFrom p' l' := heq ▸ mem_trailFrom List.mem_cons_self
  have hp' : p' ∈ trailFrom p l := heq ▸ mem_trailFrom List.mem_cons_self
  by_cases hfirst : ∀ q ∈ l.head?, p.x < q.x
  · exact (h.eq_first hfirst hp' hx.symm).symm
  by_cases hfirst' : ∀ q ∈ l'.head?, p'.x < q.x
  · exact h'.eq_first hfirst' hp hx
  simp only [not_forall, not_lt] at hfirst hfirst'
  obtain ⟨q, hq, hqx⟩ := hfirst
  obtain ⟨q', hq', hqx'⟩ := hfirst'
  obtain ⟨l, rfl⟩ := List.head?_eq_some_iff.mp hq
  obtain ⟨l', rfl⟩ := List.head?_eq_some_iff.mp hq'
  have hqx := le_antisymm h.x_le hqx
  have hqx' := le_antisymm h'.x_le hqx'
  have hseg := h'.mem_segment_of_vertical hqx' hp hx
  have hseg' := h.mem_segment_of_vertical hqx hp' hx.symm
  obtain ⟨r, l, rfl, -⟩ := h.exists_third hqx hz hlt
  obtain ⟨r', l', rfl, -⟩ := h'.exists_third hqx' (heq ▸ hz) (hx ▸ hlt)
  obtain rfl := h.second_eq_of_vertical h' heq hqx hqx' (hqx.symm.trans (hx.trans hqx'))
  exact eq_of_mem_segment (mem_segment_comm hseg) (mem_segment_comm hseg')

theorem eq_of_trail_eq {l l' : List (Point α)} (h : Bent l) (h' : Bent l')
    (heq : trail l = trail l') (hp : p ∈ l.head?) (hp' : p' ∈ l'.head?) (hx : p.x = p'.x)
    {z : Point α} (hz : z ∈ l) (hlt : p.x < z.x) : l = l' := by
  obtain ⟨l, rfl⟩ := List.head?_eq_some_iff.mp hp
  obtain ⟨l', rfl⟩ := List.head?_eq_some_iff.mp hp'
  have hl : l ≠ [] := by
    rintro rfl
    rw [List.mem_singleton.mp hz] at hlt
    exact lt_irrefl _ hlt
  have hz := mem_trailFrom hz
  rw [trail_cons p l hl] at heq
  have hl' : l' ≠ [] := by
    rintro rfl
    rw [heq, trail_singleton] at hz
    exact hz
  rw [trail_cons p' l' hl'] at heq
  obtain rfl := h.first_eq h' heq hx hz hlt
  rw [h.trailFrom_injective h' heq]

end Bent

end BoundaryAtlas.Point
