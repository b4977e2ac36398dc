import BoundaryAtlas.Proofs.Boundary.Turns

/-!
# Dropping samples without loss

At tolerance zero a sample is dropped only if it lies on the line from the last kept sample to the
one after it. So a run of dropped samples lies on the segment to the next kept sample, and a sample
that is kept bends towards that one as it does towards its own successor.
-/

namespace BoundaryAtlas

/-! ## Lines through three points -/

namespace Point

variable {α : Type} [ExactScalar α]

theorem cross_sub_right (p q r : Point α) : cross (q - p) (r - p) = cross (q - p) (r - q) := by
  change (q.x - p.x) * (r.y - p.y) - (q.y - p.y) * (r.x - p.x) =
    (q.x - p.x) * (r.y - q.y) - (q.y - p.y) * (r.x - q.x)
  ring

theorem straight_iff_steepness (p q r : Point α) (hpq : p.x < q.x) (hqr : q.x < r.x) :
    Straight p q r ↔ steepness p q = steepness q r := by
  rw [straight_iff, steepness, steepness,
    div_eq_div_iff (sub_pos.mpr hpq).ne' (sub_pos.mpr hqr).ne', eq_comm, mul_comm (q.x - p.x)]

end Point

namespace Boundary

open Point (Straight steepness)

/-! ## The kept samples -/

section

variable {α : Type} [Scalar α] [HasSqrt α] (tol : α)

theorem keptAfter_sublist (kept : Point α) (l : List (Point α)) :
    (keptAfter tol kept l).Sublist l := by
  fun_induction keptAfter tol kept l with
  | case1 kept q r rest _ ih => exact ih.cons_cons q
  | case2 kept q r rest _ ih => exact ih.cons q
  | case3 => exact List.Sublist.refl _

theorem keptAfter_ne_nil (kept q : Point α) (l : List (Point α)) :
    keptAfter tol kept (q :: l) ≠ [] := by
  induction l generalizing kept q with
  | nil => simp [keptAfter]
  | cons r l ih =>
    unfold keptAfter
    split
    · exact List.cons_ne_nil _ _
    · exact ih kept r

theorem getLast?_keptAfter (kept : Point α) (l : List (Point α)) :
    (keptAfter tol kept l).getLast? = l.getLast? := by
  fun_induction keptAfter tol kept l with
  | case1 kept q r rest _ ih =>
    rw [List.getLast?_cons_of_ne_nil (keptAfter_ne_nil tol q r rest), ih]
    rfl
  | case2 kept q r rest _ ih =>
    rw [ih]
    rfl
  | case3 => rfl

theorem keptAfter_of_near (kept q : Point α) (l : List (Point α))
    (hnear : (q :: l).IsChain fun q r => ¬ tol < chordDistance kept q r) :
    keptAfter tol kept (q :: l) = [(q :: l).getLast (List.cons_ne_nil q l)] := by
  induction l generalizing q with
  | nil => rfl
  | cons r l ih =>
    obtain ⟨hdrop, hnear⟩ := List.isChain_cons_cons.mp hnear
    rw [keptAfter, if_neg hdrop, List.getLast_cons (List.cons_ne_nil r l)]
    exact ih r hnear

end

theorem increasing_of_dropped {α : Type} [LT α] {kept q : Point α} {l : List (Point α)}
    (hx : (kept :: q :: l).Pairwise fun p q => p.x < q.x) :
    (kept :: l).Pairwise fun p q => p.x < q.x :=
  hx.sublist ((List.sublist_cons_self q l).cons_cons kept)

theorem ofSamples_eq {α : Type} [ExactScalar α] [HasSqrt α] (tol : α) (p : Point α)
    (l : List (Point α)) (hx : (p :: l).Pairwise fun p q => p.x < q.x) :
    ofSamples (p :: l) tol = .ok ⟨p :: keptAfter tol p l, List.cons_ne_nil _ _⟩ := by
  refine ofPoints_eq _ _ ?_
  have hkept := hx.sublist ((keptAfter_sublist tol p l).cons_cons p)
  exact (hkept.imp le_of_lt).isChain

/-! ## Samples on a line -/

theorem chordDistance_eq (p q r : Point ℝ) (h : p.x < r.x) :
    0 < (r - p).norm ∧ chordDistance p q r = |Point.cross (q - p) (r - p)| / (r - p).norm := by
  have hpos : 0 < (r - p).norm := (Point.norm_sub_pos_iff p r).mpr fun heq => h.ne (heq ▸ rfl)
  refine ⟨hpos, ?_⟩
  unfold chordDistance
  simp only [ExactScalar.ofNat_eq, Nat.cast_zero, if_pos hpos, ExactScalar.abs_eq]

theorem chordDistance_pos_iff (p q r : Point ℝ) (h : p.x < r.x) :
    0 < chordDistance p q r ↔ ¬ Straight p q r := by
  obtain ⟨hpos, hdistance⟩ := chordDistance_eq p q r h
  rw [hdistance, div_pos_iff_of_pos_right hpos, abs_pos, Point.cross_sub_right]
  rfl

theorem straight_of_dropped {p q r : Point ℝ} (h : p.x < r.x)
    (hdrop : ¬ 0 < chordDistance p q r) : Straight p q r := by
  by_contra hbent
  exact hdrop ((chordDistance_pos_iff p q r h).mpr hbent)

theorem chordDistance_of_line (m k : ℝ) (p q r : Point ℝ) (h : p.x < r.x) (hp : p.y = m * p.x + k)
    (hq : q.y = m * q.x + k) (hr : r.y = m * r.x + k) : chordDistance p q r = 0 := by
  have hstraight : Point.cross (q - p) (r - p) = 0 := by
    change (q.x - p.x) * (r.y - p.y) - (q.y - p.y) * (r.x - p.x) = 0
    rw [hp, hq, hr]
    ring
  rw [(chordDistance_eq p q r h).2, hstraight, abs_zero, zero_div]

theorem ofSamples_of_line (tol : ℝ) (htol : 0 ≤ tol) (m k : ℝ) (samples : List (Point ℝ))
    (htwo : 2 ≤ samples.length) (hx : samples.Pairwise fun p q => p.x < q.x)
    (hline : ∀ p ∈ samples, p.y = m * p.x + k) :
    ∃ b : Boundary ℝ, ofSamples samples tol = .ok b ∧
      b.points = [samples[0], samples[samples.length - 1]] := by
  match samples, htwo with
  | p :: q :: l, _ =>
    obtain ⟨hp, hlater⟩ := List.forall_mem_cons.mp hline
    have hnear : (q :: l).IsChain fun q r => ¬ tol < chordDistance p q r := by
      rw [List.isChain_iff_getElem]
      intro i hi
      have hpr := (List.pairwise_cons.mp hx).1 (q :: l)[i + 1] (List.getElem_mem hi)
      rw [chordDistance_of_line m k p _ _ hpr hp (hlater _ (List.getElem_mem _))
        (hlater _ (List.getElem_mem hi))]
      exact not_lt.mpr htol
    refine ⟨_, ofSamples_eq tol p (q :: l) hx, ?_⟩
    rw [keptAfter_of_near tol p q l hnear, List.getLast_eq_getElem]
    rfl

theorem valueAt_keptAfter (before : List (Point ℝ)) (kept : Point ℝ) (l : List (Point ℝ))
    (hx : (before ++ kept :: l).Pairwise fun p q => p.x < q.x) (t : ℝ) :
    (⟨before ++ kept :: keptAfter 0 kept l, by simp⟩ : Boundary ℝ).valueAt t =
      (⟨before ++ kept :: l, by simp⟩ : Boundary ℝ).valueAt t := by
  fun_induction keptAfter 0 kept l generalizing before with
  | case1 kept q r rest _ ih => simpa using ih (before ++ [kept]) (by simpa using hx)
  | case2 kept q r rest hdrop ih =>
    have hord : (before ++ kept :: q :: r :: rest).Pairwise fun p q => p.x ≤ q.x :=
      hx.imp le_of_lt
    have hkr : kept.x < r.x := by
      have hkept := (List.pairwise_append.mp hx).2.1
      exact (List.pairwise_cons.mp hkept).1 r (by simp)
    have hstraight := straight_of_dropped hkr hdrop
    have hdeletes : Deletes (⟨before ++ kept :: q :: r :: rest, by simp⟩ : Boundary ℝ)
        ⟨before ++ kept :: r :: rest, by simp⟩ := .inner before kept q r rest hstraight
    rw [hdeletes.valueAt_eq hord.isChain t]
    have hrest := ((List.sublist_cons_self q (r :: rest)).cons_cons kept).append_left before
    exact ih before (hx.sublist hrest)
  | case3 => rfl

theorem steepness_keptAfter (kept q : Point ℝ) (l : List (Point ℝ))
    (hx : (kept :: q :: l).Pairwise fun p q => p.x < q.x) :
    ∀ k ∈ (keptAfter 0 kept (q :: l)).head?, steepness kept k = steepness kept q := by
  induction l generalizing q with
  | nil =>
    rintro k ⟨rfl⟩
    rfl
  | cons r l ih =>
    unfold keptAfter
    split
    · rintro k ⟨rfl⟩
      rfl
    · rename_i hdrop
      obtain ⟨hkept, hq⟩ := List.pairwise_cons.mp hx
      obtain ⟨hqr, -⟩ := List.pairwise_cons.mp hq
      have hstraight := straight_of_dropped (hkept r (by simp)) hdrop
      intro k hk
      rw [ih r (increasing_of_dropped hx) k hk,
        Point.steepness_left kept q r hstraight (hkept q (by simp)) (hqr r (by simp)).le]

/-- A kept sample bends towards the next kept one as it does towards its own successor. -/
theorem not_straight_of_kept (kept q r : Point ℝ) (rest : List (Point ℝ))
    (hx : (kept :: q :: r :: rest).Pairwise fun p q => p.x < q.x)
    (hkeep : 0 < chordDistance kept q r) (k : Point ℝ)
    (hk : k ∈ (keptAfter 0 q (r :: rest)).head?) : ¬ Straight kept q k := by
  obtain ⟨hkept, hq⟩ := List.pairwise_cons.mp hx
  have hbefore := (List.pairwise_cons.mp hq).1
  have hmem : k ∈ r :: rest :=
    (keptAfter_sublist 0 q (r :: rest)).subset (List.mem_of_mem_head? hk)
  rw [Point.straight_iff_steepness kept q k (hkept q (by simp)) (hbefore k hmem),
    steepness_keptAfter q r rest hq k hk,
    ← Point.straight_iff_steepness kept q r (hkept q (by simp)) (hbefore r (by simp))]
  exact (chordDistance_pos_iff kept q r (hkept r (by simp))).mp hkeep

theorem not_straight_keptAfter (kept : Point ℝ) (l : List (Point ℝ))
    (hx : (kept :: l).Pairwise fun p q => p.x < q.x) :
    ∀ a b c, [a, b, c] <:+: kept :: keptAfter 0 kept l → ¬ Straight a b c := by
  fun_induction keptAfter 0 kept l with
  | case1 kept q r rest hkeep ih =>
    intro a b c habc
    rcases List.infix_cons_iff.mp habc with hfront | hlater
    · obtain ⟨rfl, hnext⟩ := List.cons_prefix_cons.mp hfront
      obtain ⟨rfl, later, hlater⟩ := List.cons_prefix_cons.mp hnext
      exact not_straight_of_kept _ _ r rest hx hkeep c (by rw [← hlater]; rfl)
    · exact ih hx.tail a b c hlater
  | case2 kept q r rest _ ih =>
    exact ih (increasing_of_dropped hx)
  | case3 kept l hshort =>
    intro a b c habc
    have hlength := habc.length_le
    match l with
    | [] => simp at hlength
    | [_] => simp at hlength
    | q :: r :: rest => exact absurd rfl (hshort q r rest)

/-! ## Kinks -/

theorem bends_steps_eq {α : Type} [ExactScalar α] (l : List (Point α))
    (h : ∀ a b c, [a, b, c] <:+: l → ¬ Straight a b c) : bends (steps l) = l.length - 2 := by
  induction l with
  | nil => rfl
  | cons p l ih =>
    match l with
    | [] => rfl
    | [_] => rfl
    | q :: r :: l =>
      have hbent : Point.cross (q - p) (r - q) ≠ 0 := h p q r ⟨[], l, rfl⟩
      rw [steps_cons_cons, steps_cons_cons, bends_cons_cons, if_pos hbent, ← steps_cons_cons,
        ih fun a b c habc => h a b c (List.infix_cons habc)]
      simp only [List.length_cons]
      omega

/-- **Simplification.** At tolerance zero the boundary through the kept samples has the values of
the boundary through all samples. It begins and ends with them, and each of its inner points is a
kink. -/
theorem ofSamples_lossless (samples : List (Point ℝ)) (hne : samples ≠ [])
    (hx : samples.Pairwise fun p q => p.x < q.x) :
    ∃ whole b : Boundary ℝ, ofPoints samples = .ok whole ∧ ofSamples samples 0 = .ok b ∧
      b.points.Sublist samples ∧ b.first = whole.first ∧ b.last = whole.last ∧
      (∀ t, b.valueAt t = whole.valueAt t) ∧
      (∀ t ∈ whole.domain, ∃ v, whole.valueAt t = .ok v) ∧
      (∀ p q r, [p, q, r] <:+: b.points → ¬ Straight p q r) ∧
      (2 ≤ b.points.length → b.turnCount 0 + 2 = b.points.length) := by
  obtain ⟨p, l, rfl⟩ := List.exists_cons_of_ne_nil hne
  have hkept := (keptAfter_sublist 0 p l).cons_cons p
  have hbends := not_straight_keptAfter p l hx
  refine ⟨⟨p :: l, hne⟩, _, ofPoints_eq _ hne (hx.imp le_of_lt).isChain, ofSamples_eq 0 p l hx,
    hkept, rfl, ?_, fun t => valueAt_keptAfter [] p l hx t, fun t ht => ⟨_, valueAt_of_mem _ t ht⟩,
    hbends, fun htwo => ?_⟩
  · apply last_eq_getLast?
    change _ ∈ (p :: keptAfter 0 p l).getLast?
    rw [List.getLast?_cons, getLast?_keptAfter, ← List.getLast?_cons]
    exact List.getLast?_eq_some_getLast hne
  · have hdistinct : (p :: keptAfter 0 p l).IsChain (· ≠ ·) :=
      ((hx.sublist hkept).imp fun h heq => h.ne (congrArg Point.x heq)).isChain
    rw [turnCount_zero_of_ne _ hdistinct, bends_steps_eq _ hbends]
    exact Nat.sub_add_cancel htwo

def roof : List (Point ℝ) := [⟨0, 0⟩, ⟨1, 1⟩, ⟨5, 5⟩, ⟨11, -1⟩, ⟨15, -5⟩]

theorem keptAfter_roof : keptAfter 0 ⟨0, 0⟩ roof.tail = [⟨5, 5⟩, ⟨15, -5⟩] := by
  have hfirst : ¬ 0 < chordDistance ⟨0, 0⟩ ⟨1, 1⟩ (⟨5, 5⟩ : Point ℝ) := by
    rw [chordDistance_pos_iff _ _ _ (by norm_num), Point.straight_iff]
    norm_num
  have hridge : 0 < chordDistance ⟨0, 0⟩ ⟨5, 5⟩ (⟨11, -1⟩ : Point ℝ) := by
    rw [chordDistance_pos_iff _ _ _ (by norm_num), Point.straight_iff]
    norm_num
  have hsecond : ¬ 0 < chordDistance ⟨5, 5⟩ ⟨11, -1⟩ (⟨15, -5⟩ : Point ℝ) := by
    rw [chordDistance_pos_iff _ _ _ (by norm_num), Point.straight_iff]
    norm_num
  simp only [roof, List.tail_cons, keptAfter, if_neg hfirst, if_pos hridge, if_neg hsecond]

theorem ofSamples_lossless_roof :
    roof ≠ [] ∧ roof.Pairwise (fun p q => p.x < q.x) ∧
    ∃ whole b : Boundary ℝ, ofPoints roof = .ok whole ∧ ofSamples roof 0 = .ok b ∧
      b.points = [⟨0, 0⟩, ⟨5, 5⟩, ⟨15, -5⟩] ∧ b.valueAt 1 = whole.valueAt 1 ∧
      b.turnCount 0 = 1 := by
  have hne : roof ≠ [] := List.cons_ne_nil _ _
  have hx : roof.Pairwise fun p q => p.x < q.x := by
    simp only [roof, List.pairwise_cons, List.forall_mem_cons]
    norm_num
  obtain ⟨whole, b, hwhole, hb, -, -, -, hvalues, -, -, hkinks⟩ := ofSamples_lossless roof hne hx
  have hpoints : b.points = [⟨0, 0⟩, ⟨5, 5⟩, ⟨15, -5⟩] := by
    have hkept := ofSamples_eq 0 ⟨0, 0⟩ roof.tail hx
    cases hb.symm.trans hkept
    exact congrArg (List.cons _) keptAfter_roof
  rw [hpoints] at hkinks
  exact ⟨hne, hx, whole, b, hwhole, hb, hpoints, hvalues 1,
    Nat.add_right_cancel (hkinks (by decide))⟩

end Boundary

end BoundaryAtlas
