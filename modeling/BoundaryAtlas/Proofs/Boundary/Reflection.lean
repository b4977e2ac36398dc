import BoundaryAtlas.Proofs.Boundary.HalfTurn

/-!
# Values after half a turn

The value of a turned boundary is that of the boundary at the reflected time, reflected in turn. The
turned boundary runs through each column the other way, and so at a jump it takes the value with
which the boundary arrives there, not the one with which it goes on.
-/

namespace BoundaryAtlas

variable {α : Type} [ExactScalar α]

namespace Boundary

/-- The value with which the boundary arrives at `t`: at a column, that of its first point. -/
def arrivalAt (b : Boundary α) (t : α) : Except (Fault α) α :=
  match b.points.find? fun p => p.x = t with
  | some p => .ok p.y
  | none => b.valueAt t

/-- The boundary jumps at `x`. -/
def JumpsAt (b : Boundary α) (x : α) : Prop :=
  ∃ s ∈ neighbours b.points, s.1.x = x ∧ s.2.x = x ∧ s.1.y ≠ s.2.y

/-! ## Times without a jump -/

theorem IsAccepted.valueAt_of_not_jumpsAt {b : Boundary α} (hb : b.IsAccepted) (k : ℕ)
    (h : k < b.points.length) (hjump : ¬ b.JumpsAt b.points[k].x) :
    b.valueAt b.points[k].x = .ok b.points[k].y := by
  -- By induction on the number of points to the right, up to the last one of the column.
  induction hn : b.points.length - k generalizing k with
  | zero => omega
  | succ n ih =>
    by_cases hnext : ∃ h : k + 1 < b.points.length, b.points[k + 1].x = b.points[k].x
    · obtain ⟨h', hx⟩ := hnext
      have hy : b.points[k].y = b.points[k + 1].y := by
        by_contra hne
        exact hjump ⟨_, mem_neighbours b.points k h h', rfl, hx, hne⟩
      rw [hy, ← hx]
      exact ih (k + 1) h' (by rwa [hx]) (by omega)
    · refine hb.valueAt_column k h fun j hj hkj => ?_
      have hne : b.points[k + 1].x ≠ b.points[k].x := fun hx => hnext ⟨by omega, hx⟩
      exact lt_of_lt_of_le (lt_of_le_of_ne (hb.isMonotone.getElem_le (by omega) _) hne.symm)
        (hb.isMonotone.getElem_le hkj hj)

/-! ## The turned boundary -/

theorem turned_mem_segment (box : Box α) {p q z : Point α} (hz : z ∈ Point.segment p q) :
    turned box z ∈ Point.segment (turned box p) (turned box q) := by
  obtain ⟨s, h0, h1, hx, hy⟩ := hz
  refine ⟨s, h0, h1, ?_, ?_⟩
  · rw [turned_x, turned_x, turned_x, hx]
    ring
  · rw [turned_y, turned_y, turned_y, hy]
    ring

theorem getElem_invert (b : Boundary α) (box : Box α) (j k : ℕ)
    (hj : j < (b.invert box).points.length) (hk : k < b.points.length)
    (hjk : j + k + 1 = b.points.length) :
    (b.invert box).points[j] = turned box b.points[k] := by
  obtain rfl : k = b.points.length - 1 - j := by omega
  simp [invert]

theorem IsAccepted.valueAt_invert_column {b : Boundary α} (hb : b.IsAccepted) (box : Box α) (k : ℕ)
    (h : k < b.points.length) (hcolumn : ∀ j (hj : j < k), b.points[j].x < b.points[k].x) :
    (b.invert box).valueAt (box.x.lo + box.x.hi - b.points[k].x) =
      .ok (box.y.lo + box.y.hi - b.points[k].y) := by
  have hlen := b.length_invert box
  have hpoint := b.getElem_invert box (b.points.length - 1 - k) k (by omega) h (by omega)
  rw [← turned_x, ← turned_y, ← hpoint]
  refine (hb.invert box).valueAt_column _ (by omega) fun j hj hkj => ?_
  rw [hpoint, b.getElem_invert box j (b.points.length - 1 - j) hj (by omega) (by omega), turned_x,
    turned_x]
  exact sub_lt_sub_left (hcolumn _ (by omega)) _

theorem IsAccepted.valueAt_invert_between {b : Boundary α} (hb : b.IsAccepted) (box : Box α)
    (k : ℕ) (hk : k < b.points.length) (h : k + 1 < b.points.length) (t : α)
    (hleft : b.points[k].x < box.x.lo + box.x.hi - t)
    (hright : box.x.lo + box.x.hi - t < b.points[k + 1].x) :
    (b.invert box).valueAt t =
      .ok (box.y.lo + box.y.hi - b.valueInside (box.x.lo + box.x.hi - t)) := by
  have hlen := b.length_invert box
  -- The segment from `k` to `k + 1` is turned into the one from `j` to `j + 1`.
  obtain ⟨j, hjk⟩ : ∃ j, j + k + 2 = b.points.length := ⟨b.points.length - 2 - k, by omega⟩
  have hp := b.getElem_invert box j (k + 1) (by omega) h (by omega)
  have hq := b.getElem_invert box (j + 1) k (by omega) hk (by omega)
  have hfrom : (b.invert box).points[j].x ≤ t := by
    rw [hp, turned_x]
    linarith
  have hto : t < (b.invert box).points[j + 1].x := by
    rw [hq, turned_x]
    linarith
  have hturned := (hb.invert box).follows_valueInside.chord j (by omega) t hfrom hto
  have hpoint := turned_mem_segment box
    (Point.mem_segment_comm (hb.follows_valueInside.chord k h _ hleft.le hright))
  rw [← hp, ← hq] at hpoint
  have heq := Point.eq_of_x_eq (hfrom.trans_lt hto) hturned hpoint
    (by rw [turned_x, sub_sub_cancel])
  rw [(b.invert box).valueAt_of_mem t ((hb.invert box).mem_domain j (by omega) t hfrom hto)]
  exact congrArg Except.ok ((congrArg Point.y heq).trans (turned_y box _))

/-- **Reflection.** At each time whose reflection `c` is in the domain of a boundary, the turned
boundary has the reflected value: that of the first point at `c` if there is one, and else that of
the boundary at `c`. Unless the boundary jumps at `c`, its value there is the same. -/
theorem valueAt_invert (b : Boundary α) (hb : ofPoints b.points = .ok b) (box : Box α) (t : α)
    (ht : box.x.lo + box.x.hi - t ∈ b.domain) :
    ∃ w, b.arrivalAt (box.x.lo + box.x.hi - t) = .ok w ∧
      (b.invert box).valueAt t = .ok (box.y.lo + box.y.hi - w) ∧
      (¬ b.JumpsAt (box.x.lo + box.x.hi - t) →
        b.valueAt (box.x.lo + box.x.hi - t) = .ok w) := by
  have hb := isAccepted_of_ofPoints hb
  generalize hc : box.x.lo + box.x.hi - t = c at ht ⊢
  have htc : t = box.x.lo + box.x.hi - c := by rw [← hc, sub_sub_cancel]
  rw [arrivalAt]
  cases hcolumn : b.points.find? fun p => p.x = c with
  | some p =>
    obtain ⟨hx, k, hk, rfl, hbefore⟩ := List.find?_eq_some_iff_getElem.mp hcolumn
    obtain rfl := of_decide_eq_true hx
    refine ⟨b.points[k].y, rfl, ?_, hb.valueAt_of_not_jumpsAt k hk⟩
    rw [htc]
    refine hb.valueAt_invert_column box k hk fun j hj => ?_
    have hne : b.points[j].x ≠ b.points[k].x := by simpa using hbefore j hj
    exact lt_of_le_of_ne (hb.isMonotone.getElem_le hj.le hk) hne
  | none =>
    have hne : ∀ p ∈ b.points, p.x ≠ c := by simpa using hcolumn
    obtain ⟨hfirst, hlast⟩ := (b.mem_domain_iff c).mp ht
    obtain ⟨k, h, hleft, hright⟩ := hb.exists_between c hfirst
      (lt_of_le_of_ne hlast (hne _ (List.getLast_mem b.nonempty)).symm)
    have hleft := lt_of_le_of_ne hleft (hne _ (List.getElem_mem _))
    refine ⟨b.valueInside c, b.valueAt_of_mem c ht, ?_, fun _ => b.valueAt_of_mem c ht⟩
    rw [← hc] at hleft hright ⊢
    exact hb.valueAt_invert_between box k _ h t hleft hright

theorem valueAt_invert_fall :
    ofPoints (fall ℚ).points = .ok (fall ℚ) ∧
      (20 - 10 ∈ (fall ℚ).domain ∧ ((fall ℚ).invert .canonical).valueAt 10 = .ok (1 - 1)) ∧
      20 - 5 ∈ (fall ℚ).domain ∧ ¬ (fall ℚ).JumpsAt (20 - 5) ∧
      (fall ℚ).valueAt (20 - 5) = .ok (1 / 2) ∧
      ((fall ℚ).invert .canonical).valueAt 5 = .ok (1 - 1 / 2) := by
  have hwidth : (Box.canonical : Box ℚ).x.lo + (Box.canonical : Box ℚ).x.hi = 20 := by
    decide +kernel
  have hheight : (Box.canonical : Box ℚ).y.lo + (Box.canonical : Box ℚ).y.hi = 1 := by
    decide +kernel
  have hat : 20 - 10 ∈ (fall ℚ).domain := ((fall ℚ).mem_domain_iff _).mpr (by decide +kernel)
  have hpast : 20 - 5 ∈ (fall ℚ).domain := ((fall ℚ).mem_domain_iff _).mpr (by decide +kernel)
  have hjump : ¬ (fall ℚ).JumpsAt (20 - 5) := by
    have hnone : ∀ p ∈ (fall ℚ).points, p.x ≠ 20 - 5 := by decide +kernel
    rintro ⟨s, hs, hx, -⟩
    exact hnone s.1 (List.of_mem_zip hs).1 hx
  obtain ⟨w, hw, hturned, -⟩ := valueAt_invert (fall ℚ) ofPoints_fall .canonical 10 (hwidth ▸ hat)
  obtain ⟨v, hv, hturned', hvalue⟩ :=
    valueAt_invert (fall ℚ) ofPoints_fall .canonical 5 (hwidth ▸ hpast)
  rw [hwidth] at hw hv hvalue
  rw [hheight] at hturned hturned'
  have hone : (fall ℚ).arrivalAt (20 - 10) = .ok 1 := by decide +kernel
  have hhalf : (fall ℚ).arrivalAt (20 - 5) = .ok (1 / 2) := by decide +kernel
  cases hw.symm.trans hone
  cases hv.symm.trans hhalf
  exact ⟨ofPoints_fall, ⟨hat, hturned⟩, hpast, hjump, hvalue hjump, hturned'⟩

end Boundary

end BoundaryAtlas
