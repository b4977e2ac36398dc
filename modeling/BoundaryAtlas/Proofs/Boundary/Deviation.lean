import BoundaryAtlas.Proofs.Boundary.Simplification
import BoundaryAtlas.Proofs.Plane.Trail

/-!
# How far dropped samples lie from the simplified boundary

A sample is measured against the line to its own successor, and never again. If the successor is
dropped, too, then what is allowed for it comes on top. So along a run of dropped samples the
distance can grow by one tolerance for each of them, and by more where the line is steep and the
sample lies beyond the ends of the chord.
-/

namespace BoundaryAtlas

/-! ## Near a chord -/

namespace Point

def dot (u v : Point ℝ) : ℝ := u.x * v.x + u.y * v.y

/-- The foot of `q` on the line through `p` and `r` lies between the two. -/
def FootBetween (p q r : Point ℝ) : Prop :=
  0 ≤ dot (q - p) (r - p) ∧ dot (q - p) (r - p) ≤ dot (r - p) (r - p)

noncomputable instance (p q r : Point ℝ) : Decidable (FootBetween p q r) := by
  unfold FootBetween
  infer_instance

theorem dot_self (u : Point ℝ) : dot u u = u.norm * u.norm := u.norm_mul_norm.symm

/-- The distance from the point of the line through `v` at which the foot of `u` lies. -/
theorem mul_self_sub_foot (u v : Point ℝ) (s : ℝ) (hs : s * dot v v = dot u v) :
    ((u.x - s * v.x) * (u.x - s * v.x) + (u.y - s * v.y) * (u.y - s * v.y)) * dot v v =
      cross u v * cross u v := by
  unfold dot cross at *
  linear_combination (s * (v.x * v.x + v.y * v.y) - (u.x * v.x + u.y * v.y)) * hs

theorem exists_near_foot (tol : ℝ) (htol : 0 ≤ tol) (p q r : Point ℝ) (hpr : p.x < r.x)
    (hnear : |cross (q - p) (r - p)| ≤ tol * (r - p).norm) (hfoot : FootBetween p q r) :
    ∃ z ∈ segment p r, (q - z).norm ≤ tol := by
  obtain ⟨hlo, hhi⟩ := hfoot
  have hlength : 0 < (r - p).norm := (norm_sub_pos_iff p r).mpr fun heq => hpr.ne (heq ▸ rfl)
  have hpos : 0 < dot (r - p) (r - p) := by
    rw [dot_self]
    exact mul_pos hlength hlength
  obtain ⟨s, hs⟩ : ∃ s, s * dot (r - p) (r - p) = dot (q - p) (r - p) :=
    ⟨_, div_mul_cancel₀ _ hpos.ne'⟩
  have hs0 : 0 ≤ s := nonneg_of_mul_nonneg_left (hs ▸ hlo) hpos
  have hs1 : s ≤ 1 := le_of_mul_le_mul_right (by rw [hs, one_mul]; exact hhi) hpos
  refine ⟨⟨p.x + s * (r.x - p.x), p.y + s * (r.y - p.y)⟩, ⟨s, hs0, hs1, rfl, rfl⟩, ?_⟩
  rw [norm_le_iff _ htol]
  have harea := mul_self_le_mul_self (abs_nonneg _) hnear
  rw [abs_mul_abs_self, ← mul_self_sub_foot (q - p) (r - p) s hs, mul_mul_mul_comm, ← dot_self]
    at harea
  have hsquare := le_of_mul_le_mul_right harea hpos
  change (q.x - p.x - s * (r.x - p.x)) * (q.x - p.x - s * (r.x - p.x)) +
    (q.y - p.y - s * (r.y - p.y)) * (q.y - p.y - s * (r.y - p.y)) ≤ tol * tol at hsquare
  rwa [sub_sub, sub_sub] at hsquare

/-- The point of the chord straight above or below is near, too, unless the chord is steep. -/
theorem exists_near_above (tol : ℝ) (p q r : Point ℝ) (hpq : p.x < q.x) (hqr : q.x < r.x)
    (hnear : |cross (q - p) (r - p)| ≤ tol * (r - p).norm) :
    ∃ z ∈ segment p r, (q - z).norm ≤ tol * ((r - p).norm / (r.x - p.x)) := by
  have hpr := hpq.trans hqr
  have hwidth : 0 < r.x - p.x := sub_pos.mpr hpr
  refine ⟨⟨q.x, p.y + steepness p r * (q.x - p.x)⟩,
    (mem_segment_iff_of_lt hpr).mpr ⟨hpq.le, hqr.le, rfl⟩, ?_⟩
  rw [norm_of_vertical _ (sub_self q.x), ← mul_div_assoc, le_div_iff₀ hwidth]
  refine le_trans (le_of_eq ?_) hnear
  have hline := steepness_mul p r hpr
  rw [← abs_of_pos hwidth, ← abs_mul, ← abs_neg]
  congr 1
  change -((q.y - (p.y + steepness p r * (q.x - p.x))) * (r.x - p.x)) =
    (q.x - p.x) * (r.y - p.y) - (q.y - p.y) * (r.x - p.x)
  linear_combination (q.x - p.x) * hline

end Point

namespace Boundary

open Point (segment FootBetween)

/-- What is allowed for a sample that is dropped: the tolerance, or more if the sample lies beyond
an end of the chord that it is measured against. -/
noncomputable def allowance (tol : ℝ) (p q r : Point ℝ) : ℝ :=
  if FootBetween p q r then tol else tol * ((r - p).norm / (r.x - p.x))

theorem exists_near_chord (tol : ℝ) (htol : 0 ≤ tol) (p q r : Point ℝ) (hpq : p.x < q.x)
    (hqr : q.x < r.x) (hdrop : ¬ tol < chordDistance p q r) :
    ∃ z ∈ segment p r, (q - z).norm ≤ allowance tol p q r := by
  have hpr := hpq.trans hqr
  obtain ⟨hlength, hdistance⟩ := chordDistance_eq p q r hpr
  rw [hdistance, not_lt, div_le_iff₀ hlength] at hdrop
  unfold allowance
  split
  · exact Point.exists_near_foot tol htol p q r hpr hdrop (by assumption)
  · exact Point.exists_near_above tol p q r hpq hqr hdrop

/-! ## Along a run of dropped samples -/

theorem exists_shrunk (p r w z c : Point ℝ) (hz : z ∈ segment p r) (hw : w ∈ segment p c) :
    ∃ z' ∈ segment p c, (z - z').norm ≤ (r - w).norm := by
  obtain ⟨s, hs0, hs1, hzx, hzy⟩ := hz
  obtain ⟨u, hu0, hu1, hwx, hwy⟩ := hw
  refine ⟨⟨p.x + s * (w.x - p.x), p.y + s * (w.y - p.y)⟩,
    ⟨s * u, mul_nonneg hs0 hu0, mul_le_one₀ hs1 hu0 hu1, ?_, ?_⟩, ?_⟩
  · simp only [hwx]
    ring
  · simp only [hwy]
    ring
  · rw [Point.norm_le_iff _ (Point.norm_nonneg _), Point.norm_mul_norm]
    change (z.x - (p.x + s * (w.x - p.x))) * (z.x - (p.x + s * (w.x - p.x))) +
      (z.y - (p.y + s * (w.y - p.y))) * (z.y - (p.y + s * (w.y - p.y))) ≤
      (r.x - w.x) * (r.x - w.x) + (r.y - w.y) * (r.y - w.y)
    have hnonneg := Point.mul_self_add_mul_self_nonneg (r.x - w.x) (r.y - w.y)
    have hshare := mul_le_of_le_one_left hnonneg (mul_le_one₀ hs1 hs0 hs1)
    refine le_trans (le_of_eq ?_) hshare
    rw [hzx, hzy]
    ring

/-- What is allowed along a run of samples, each of which but the last one is dropped. -/
noncomputable def drift (tol : ℝ) (kept : Point ℝ) (run : List (Point ℝ)) : ℝ :=
  ((neighbours run).map fun (q, r) => allowance tol kept q r).sum

theorem drift_cons_cons (tol : ℝ) (kept q r : Point ℝ) (run : List (Point ℝ)) :
    drift tol kept (q :: r :: run) = allowance tol kept q r + drift tol kept (r :: run) := by
  unfold drift
  rw [neighbours_cons_cons, List.map_cons, List.sum_cons]

theorem exists_near_self (tol : ℝ) (kept q : Point ℝ) :
    ∃ z ∈ segment kept q, (q - z).norm ≤ drift tol kept [q] :=
  ⟨q, Point.right_mem_segment kept q, (Point.norm_sub_self q).le⟩

theorem exists_near_run (tol : ℝ) (htol : 0 ≤ tol) (kept q : Point ℝ) (l : List (Point ℝ))
    (hx : (kept :: q :: l).Pairwise fun p q => p.x < q.x) :
    ∃ run c, c ∈ (keptAfter tol kept (q :: l)).head? ∧ run ++ [c] <+: q :: l ∧
      ∃ z ∈ segment kept c, (q - z).norm ≤ drift tol kept (run ++ [c]) := by
  induction l generalizing q with
  | nil => exact ⟨[], q, rfl, List.prefix_refl _, exists_near_self tol kept q⟩
  | cons r l ih =>
    unfold keptAfter
    split
    · exact ⟨[], q, rfl, ⟨r :: l, rfl⟩, exists_near_self tol kept q⟩
    · rename_i hdrop
      obtain ⟨hkept, hq⟩ := List.pairwise_cons.mp hx
      have hqr := (List.pairwise_cons.mp hq).1 r (by simp)
      obtain ⟨run, c, hc, ⟨after, hrun⟩, w, hw, hnear⟩ := ih r (increasing_of_dropped hx)
      -- `q` is near its own chord, whose end `r` moves to `w` when it is dropped in its turn.
      obtain ⟨z, hz, hchord⟩ := exists_near_chord tol htol kept q r (hkept q (by simp)) hqr hdrop
      obtain ⟨z', hz', hshrunk⟩ := exists_shrunk kept r w z c hz hw
      obtain ⟨later, hlater⟩ : ∃ later, run ++ [c] = r :: later := by
        cases run with
        | nil => exact ⟨[], by simp_all⟩
        | cons r' run => exact ⟨run ++ [c], by simp_all⟩
      refine ⟨q :: run, c, hc, ⟨after, by rw [← hrun]; rfl⟩, z', hz', ?_⟩
      rw [List.cons_append, hlater, drift_cons_cons, ← hlater]
      calc (q - z').norm ≤ (q - z).norm + (z - z').norm := Point.norm_sub_le q z z'
        _ ≤ allowance tol kept q r + drift tol kept (run ++ [c]) :=
          add_le_add hchord (hshrunk.trans hnear)

/-- The sample `s` is dropped on the way from `a` to `c`, the next kept one, and `later` are those
that are dropped after it. -/
structure DroppedBetween (samples kept : List (Point ℝ)) (a c s : Point ℝ)
    (later : List (Point ℝ)) : Prop where
  segment : (a, c) ∈ neighbours kept
  passed : a.x < s.x
  run : s :: later ++ [c] <:+: samples

theorem DroppedBetween.cons {samples kept : List (Point ℝ)} {a c s : Point ℝ}
    {later : List (Point ℝ)} (h : DroppedBetween samples kept a c s later) (q : Point ℝ) :
    DroppedBetween (q :: samples) kept a c s later :=
  ⟨h.segment, h.passed, List.infix_cons h.run⟩

theorem mem_neighbours_head? {β : Type} (p c : β) (l : List β) (hc : c ∈ l.head?) :
    (p, c) ∈ neighbours (p :: l) := by
  obtain ⟨l, rfl⟩ := List.head?_eq_some_iff.mp hc
  exact List.mem_cons_self

theorem keptAfter_near (tol : ℝ) (htol : 0 ≤ tol) (kept : Point ℝ) (l : List (Point ℝ))
    (hx : (kept :: l).Pairwise fun p q => p.x < q.x) :
    ∀ s ∈ l, s ∈ keptAfter tol kept l ∨
      ∃ a c later, DroppedBetween l (kept :: keptAfter tol kept l) a c s later ∧
        ∃ z ∈ segment a c, (s - z).norm ≤ drift tol a (s :: later ++ [c]) := by
  fun_induction keptAfter tol kept l with
  | case1 kept q r rest _ ih =>
    intro s hs
    rcases List.mem_cons.mp hs with rfl | hs
    · exact .inl List.mem_cons_self
    · obtain hin | ⟨a, c, later, hdropped, hnear⟩ := ih hx.tail s hs
      · exact .inl (List.mem_cons_of_mem q hin)
      · refine .inr ⟨a, c, later, { hdropped.cons q with segment := ?_ }, hnear⟩
        rw [neighbours_cons_cons]
        exact List.mem_cons_of_mem _ hdropped.segment
  | case2 kept q r rest hdrop ih =>
    have hrest := increasing_of_dropped hx
    intro s hs
    rcases List.mem_cons.mp hs with rfl | hs
    · obtain ⟨run, c, hc, hrun, hnear⟩ := exists_near_run tol htol kept s (r :: rest) hx
      have hkept : keptAfter tol kept (s :: r :: rest) = keptAfter tol kept (r :: rest) :=
        if_neg hdrop
      rw [hkept] at hc
      cases run with
      | nil =>
        obtain ⟨rfl, -⟩ := List.cons_prefix_cons.mp hrun
        exact .inl (List.mem_of_mem_head? hc)
      | cons s' later =>
        obtain ⟨rfl, -⟩ := List.cons_prefix_cons.mp hrun
        exact .inr ⟨kept, c, later, ⟨mem_neighbours_head? kept c _ hc,
          (List.pairwise_cons.mp hx).1 s' List.mem_cons_self, hrun.isInfix⟩, hnear⟩
    · obtain hin | ⟨a, c, later, hdropped, hnear⟩ := ih hrest s hs
      · exact .inl hin
      · exact .inr ⟨a, c, later, hdropped.cons q, hnear⟩
  | case3 kept l hshort =>
    intro s hs
    exact .inl hs

/-! ## Samples that are closer than the tolerance -/

theorem chordDistance_le (p q r : Point ℝ) (hpr : p.x < r.x) :
    chordDistance p q r ≤ (r - q).norm := by
  obtain ⟨hlength, hdistance⟩ := chordDistance_eq p q r hpr
  have hcross : Point.cross (q - p) (r - p) = -Point.cross (r - q) (r - p) := by
    change (q.x - p.x) * (r.y - p.y) - (q.y - p.y) * (r.x - p.x) =
      -((r.x - q.x) * (r.y - p.y) - (r.y - q.y) * (r.x - p.x))
    ring
  rw [hdistance, div_le_iff₀ hlength, hcross, abs_neg]
  exact Point.abs_cross_le (r - q) (r - p)

theorem keptAfter_of_close (tol : ℝ) (kept q : Point ℝ) (l : List (Point ℝ))
    (hx : (kept :: q :: l).Pairwise fun p q => p.x < q.x)
    (hclose : (q :: l).IsChain fun p q => (q - p).norm ≤ tol) :
    keptAfter tol kept (q :: l) = [(q :: l).getLast (List.cons_ne_nil q l)] := by
  refine keptAfter_of_near tol kept q l (List.isChain_iff_getElem.mpr fun i hi => not_lt.mpr ?_)
  have hkr := (List.pairwise_cons.mp hx).1 (q :: l)[i + 1] (List.getElem_mem hi)
  exact (chordDistance_le kept _ _ hkr).trans (List.isChain_iff_getElem.mp hclose i hi)

/-! ## All samples -/

/-- **Deviation.** A sample is a point of the simplified boundary, or it is dropped on the way from
one point to the next, and then the segment between these two is as near to it as is allowed for
the samples that are dropped from it on. -/
theorem ofSamples_near (tol : ℝ) (htol : 0 ≤ tol) (samples : List (Point ℝ)) (hne : samples ≠ [])
    (hx : samples.Pairwise fun p q => p.x < q.x) :
    ∃ b : Boundary ℝ, ofSamples samples tol = .ok b ∧
      ∀ s ∈ samples, s ∈ b.points ∨
        ∃ a c later, DroppedBetween samples b.points a c s later ∧
          ∃ z ∈ segment a c, (s - z).norm ≤ drift tol a (s :: later ++ [c]) := by
  obtain ⟨p, l, rfl⟩ := List.exists_cons_of_ne_nil hne
  refine ⟨_, ofSamples_eq tol p l hx, fun s hs => ?_⟩
  rcases List.mem_cons.mp hs with rfl | hs
  · exact .inl List.mem_cons_self
  · obtain hin | ⟨a, c, later, hdropped, hnear⟩ := keptAfter_near tol htol p l hx s hs
    · exact .inl (List.mem_cons_of_mem p hin)
    · exact .inr ⟨a, c, later, hdropped.cons p, hnear⟩

/-- Two steps up and two steps down, each of length five. -/
def hill : List (Point ℝ) := [⟨0, 0⟩, ⟨3, 4⟩, ⟨6, 8⟩, ⟨9, 4⟩, ⟨12, 0⟩]

theorem hill_increasing : hill.Pairwise fun p q => p.x < q.x := by
  simp only [hill, List.pairwise_cons, List.forall_mem_cons]
  norm_num

theorem keptAfter_hill : keptAfter 5 ⟨0, 0⟩ hill.tail = [⟨12, 0⟩] := by
  refine keptAfter_of_close 5 _ _ _ hill_increasing ?_
  simp only [List.isChain_cons_cons, Point.sub_mk, Point.norm_le_iff _ (by norm_num : (0 : ℝ) ≤ 5)]
  norm_num

theorem ofSamples_hill (b : Boundary ℝ) (hb : ofSamples hill 5 = .ok b) :
    b.points = [⟨0, 0⟩, ⟨12, 0⟩] := by
  cases hb.symm.trans (ofSamples_eq 5 ⟨0, 0⟩ hill.tail hill_increasing)
  exact congrArg (List.cons _) keptAfter_hill

theorem later_hill (later : List (Point ℝ)) (h : ⟨6, 8⟩ :: later ++ [⟨12, 0⟩] <:+: hill) :
    later = [⟨9, 4⟩] := by
  obtain ⟨before, after, hrun⟩ := h
  rcases before with _ | ⟨_, _ | ⟨_, _ | ⟨_, before⟩⟩⟩
  · norm_num [hill] at hrun
  · norm_num [hill] at hrun
  · rcases later with _ | ⟨_, _ | ⟨_, later⟩⟩
    · norm_num [hill] at hrun
    · norm_num [hill] at hrun
      simp_all
    · norm_num [hill] at hrun
      exact absurd hrun.2.2.2.2.2 (List.cons_ne_nil _ _)
  · have hmem : (⟨6, 8⟩ : Point ℝ) ∈ [⟨9, 4⟩, ⟨12, 0⟩] := by
      simp only [hill, List.cons_append, List.cons.injEq, List.append_assoc] at hrun
      rw [← hrun.2.2.2]
      simp
    norm_num at hmem

theorem drift_hill : drift 5 ⟨0, 0⟩ [⟨6, 8⟩, ⟨9, 4⟩, ⟨12, 0⟩] = 10 := by
  have htop : FootBetween ⟨0, 0⟩ ⟨6, 8⟩ ⟨9, 4⟩ := by
    norm_num [FootBetween, Point.sub_mk, Point.dot]
  have hslope : FootBetween ⟨0, 0⟩ ⟨9, 4⟩ ⟨12, 0⟩ := by
    norm_num [FootBetween, Point.sub_mk, Point.dot]
  have hend : drift 5 ⟨0, 0⟩ [⟨12, 0⟩] = 0 := rfl
  rw [drift_cons_cons, drift_cons_cons, hend, allowance, if_pos htop, allowance, if_pos hslope]
  norm_num

/-- Two tolerances are allowed for the top of the hill, and it uses eight tenths of them. -/
theorem ofSamples_near_hill :
    (0 : ℝ) ≤ 5 ∧ hill ≠ [] ∧ hill.Pairwise (fun p q => p.x < q.x) ∧
      ∃ b : Boundary ℝ, ofSamples hill 5 = .ok b ∧
        DroppedBetween hill b.points ⟨0, 0⟩ ⟨12, 0⟩ ⟨6, 8⟩ [⟨9, 4⟩] ∧
        ∃ z ∈ segment (⟨0, 0⟩ : Point ℝ) ⟨12, 0⟩, (⟨6, 8⟩ - z).norm ≤ 10 := by
  have htol : (0 : ℝ) ≤ 5 := by norm_num
  have hne : hill ≠ [] := List.cons_ne_nil _ _
  obtain ⟨b, hb, hnear⟩ := ofSamples_near 5 htol hill hne hill_increasing
  refine ⟨htol, hne, hill_increasing, b, hb, ?_⟩
  obtain hin | ⟨a, c, later, hdropped, hz⟩ := hnear ⟨6, 8⟩ (by simp [hill])
  · simp [ofSamples_hill b hb] at hin
  · have hsegment := hdropped.segment
    rw [ofSamples_hill b hb] at hsegment
    obtain ⟨rfl, rfl⟩ : a = ⟨0, 0⟩ ∧ c = ⟨12, 0⟩ := by simpa [neighbours] using hsegment
    obtain rfl := later_hill later hdropped.run
    rw [List.cons_append, List.cons_append, List.nil_append, drift_hill] at hz
    exact ⟨hdropped, hz⟩

/-- The top of the hill is dropped, at a distance of more than the tolerance. -/
theorem ofSamples_strays_hill :
    (0 : ℝ) ≤ 5 ∧ hill ≠ [] ∧ hill.Pairwise (fun p q => p.x < q.x) ∧ ⟨6, 8⟩ ∈ hill ∧
      ∃ b : Boundary ℝ, ofSamples hill 5 = .ok b ∧
        ∀ z ∈ Point.trail b.points, 5 < (⟨6, 8⟩ - z).norm := by
  have hb := ofSamples_eq 5 ⟨0, 0⟩ hill.tail hill_increasing
  refine ⟨by norm_num, List.cons_ne_nil _ _, hill_increasing, by simp [hill], _, hb, ?_⟩
  rw [ofSamples_hill _ hb]
  rintro z ⟨s, hs, hz⟩
  obtain rfl : s = (⟨0, 0⟩, ⟨12, 0⟩) := by simpa [neighbours] using hs
  obtain ⟨share, -, -, -, hzy⟩ := hz
  refine lt_of_lt_of_le ?_ (Point.abs_y_le_norm (⟨6, 8⟩ - z))
  change 5 < |8 - z.y|
  rw [hzy]
  norm_num

end Boundary

end BoundaryAtlas
