import BoundaryAtlas.Proofs.Grid.Overflow

/-!
# Listing boundaries in machine words

On a grid that fits into the words, the machine of words goes through all boundaries with so many
kinks, and counts their kinks.
-/

namespace BoundaryAtlas

theorem Words.Reached.canonical_of_next {α : Type} {d : Grid α} {kinks : Nat} {s : Search}
    (h : Reached d kinks s) {b : GridBoundary} (hb : s.next.1 = some b) : b.IsCanonical d kinks := by
  rw [Search.next_eq] at hb
  cases hpath : s.next? with
  | none => simp [hpath] at hb
  | some path =>
    obtain rfl : (⟨path.reverse⟩ : GridBoundary) = b := by simpa [hpath] using hb
    exact h.next?_canonical hpath

namespace Machine

/-! ## Counting kinks -/

theorem Sound.kinks {M : Machine Option} (hM : M.Sound) (b : GridBoundary) :
    Agrees (M.kinks b) b.kinks := by
  rw [← b.kinks_ideal]
  exact hM.turns b.points

theorem turns_isSome_iff (l : List GridPoint) :
    (words.turns l).isSome = true ↔
      ∀ p q r, [p, q, r] <:+: l → (words.cross p q r).isSome = true := by
  fun_induction GridBoundary.turns l with
  | case1 p q r rest ih =>
    have hstep : words.turns (p :: q :: r :: rest) = (do
        let straight ← words.collinear p q r
        let others ← words.turns (q :: r :: rest)
        return (if straight then 0 else 1) + others) := rfl
    have hsplit : (words.turns (p :: q :: r :: rest)).isSome = true ↔
        (words.cross p q r).isSome = true ∧ (words.turns (q :: r :: rest)).isSome = true := by
      rw [hstep, collinear]
      cases words.cross p q r <;> cases words.turns (q :: r :: rest) <;> simp
    rw [hsplit, ih]
    constructor
    · rintro ⟨hfirst, hrest⟩ a b c h
      rcases List.infix_cons_iff.mp h with hprefix | hinfix
      · obtain ⟨rfl, rfl, rfl⟩ : a = p ∧ b = q ∧ c = r := by simpa using hprefix
        exact hfirst
      · exact hrest a b c hinfix
    · intro h
      exact ⟨h p q r (List.prefix_append [p, q, r] rest).isInfix,
        fun a b c hinfix => h a b c (List.infix_cons hinfix)⟩
  | case2 l hl =>
    have hlong : ∀ a b c, ¬ [a, b, c] <:+: l := by
      intro a b c h
      rcases l with _ | ⟨p, _ | ⟨q, _ | ⟨r, rest⟩⟩⟩
      · exact absurd h.length_le (by simp)
      · exact absurd h.length_le (by simp)
      · exact absurd h.length_le (by simp)
      · exact hl p q r rest rfl
    rw [Machine.turns.eq_def]
    split
    · exact absurd rfl (hl _ _ _ _)
    · exact iff_of_true rfl fun a b c h => absurd h (hlong a b c)

theorem checked_kinks (b : GridBoundary) : checked.kinks b = some b.kinks := by
  unfold Machine.kinks GridBoundary.kinks
  fun_induction GridBoundary.turns b.points with
  | case1 p q r rest ih =>
    have hstep : checked.turns (p :: q :: r :: rest) = (do
        let others ← checked.turns (q :: r :: rest)
        return (if GridPoint.collinear p q r then 0 else 1) + others) := rfl
    rw [hstep, ih]
    rfl
  | case2 l hl =>
    rw [Machine.turns.eq_def]
    split
    · exact absurd rfl (hl _ _ _ _)
    · rfl

theorem abs_mul_lt {a b : Int} (ha : |a| < 2 ^ 31) (hb : |b| < 2 ^ 31) : |a * b| < 2 ^ 62 := by
  rw [abs_mul]
  calc |a| * |b| ≤ |a| * 2 ^ 31 := mul_le_mul_of_nonneg_left hb.le (abs_nonneg a)
    _ < 2 ^ 31 * 2 ^ 31 := mul_lt_mul_of_pos_right ha (by decide)
    _ = 2 ^ 62 := rfl

theorem cross_isSome_of_lt {p q r : GridPoint} (hp : p.col < 2 ^ 31 ∧ p.row < 2 ^ 31)
    (hq : q.col < 2 ^ 31 ∧ q.row < 2 ^ 31) (hr : r.col < 2 ^ 31 ∧ r.row < 2 ^ 31) :
    (words.cross p q r).isSome = true := by
  have hleft := abs_mul_lt (a := (q.col : Int) - p.col) (b := (r.row : Int) - q.row)
    (by rw [abs_lt]; omega) (by rw [abs_lt]; omega)
  have hright := abs_mul_lt (a := (q.row : Int) - p.row) (b := (r.col : Int) - q.col)
    (by rw [abs_lt]; omega) (by rw [abs_lt]; omega)
  exact cross_isSome_of_area (by omega) (by omega) (by omega) (by linarith)

theorem kinks_isSome_of_lt (b : GridBoundary)
    (h : ∀ p ∈ b.points, p.col < 2 ^ 31 ∧ p.row < 2 ^ 31) :
    (words.kinks b).isSome = true := by
  refine (turns_isSome_iff b.points).mpr fun p q r hpqr => ?_
  have hp := h p (hpqr.subset (by simp))
  have hq := h q (hpqr.subset (by simp))
  have hr := h r (hpqr.subset (by simp))
  exact cross_isSome_of_lt hp hq hr

theorem Fits.kinks_eq {numX numY : Nat} (h : Fits numX numY) {b : GridBoundary}
    (hord : b.points.IsChain fun p q => p.col ≤ q.col)
    (hnodes : ∀ p ∈ b.points, p.col ≤ numX ∧ p.row ≤ numY) :
    words.kinks b = some b.kinks := by
  refine (sound_words.kinks b).eq_some ((turns_isSome_iff b.points).mpr fun p q r hpqr => ?_)
  have hchain := hord.infix hpqr
  have hp := hnodes p (hpqr.subset (by simp))
  have hq := hnodes q (hpqr.subset (by simp))
  have hr := hnodes r (hpqr.subset (by simp))
  simp only [List.isChain_cons_cons] at hchain
  exact cross_isSome h hchain.1 hchain.2.1 hr.1 hp.2 hq.2 hr.2

variable {α β : Type} {d : Grid α} {kinks : Nat} {s : Search}

theorem kinks_of_isCanonical (h : Fits d.numX d.numY) {b : GridBoundary}
    (hb : b.IsCanonical d kinks) : words.kinks b = some kinks := by
  rw [h.kinks_eq hb.ordered hb.nodes, hb.kinks_eq]

/-! ## Going through the boundaries -/

theorem visitUpTo_isSome (h : Fits d.numX d.numY) {f : β → GridBoundary → Option (Bool × β)}
    (hf : ∀ state b, b.IsCanonical d kinks → (f state b).isSome = true)
    (hs : Words.Reached d kinks s) (limit : Nat) (state : β) :
    (words.visitUpTo f limit s state).isSome = true := by
  induction limit generalizing s state with
  | zero => rfl
  | succ limit ih =>
    refine isSome_bind (hs.next_isSome h) fun answer hanswer => ?_
    obtain rfl : answer = s.next := sound_words.next s answer hanswer
    rcases hnext : s.next with ⟨_ | b, after⟩
    · rfl
    · have hafter : Words.Reached d kinks after := by
        have := hs.next
        rwa [hnext] at this
      refine isSome_bind (hf state b (hs.canonical_of_next (by rw [hnext]))) fun answer _ => ?_
      rcases answer with ⟨_ | _, state'⟩
      · rfl
      · exact ih hafter state'

theorem visit_isSome (h : Fits d.numX d.numY) {f : β → GridBoundary → Option (Bool × β)}
    (hf : ∀ state b, b.IsCanonical d kinks → (f state b).isSome = true) (state : β) :
    (words.visit f (Search.new d kinks) state).isSome = true :=
  isSome_bind (visitUpTo_isSome h hf (Words.reached_new d kinks) _ state) fun _ _ => rfl

theorem Fits.search_eq (h : Fits d.numX d.numY) (hk : kinks ≤ d.kinkLimit) :
    words.search d kinks = some (Search.new d kinks) := by
  have hcols := h.cols
  have hbytes : 8 * (kinks + 2) < twoPow 63 := by
    rw [Grid.kinkLimit] at hk
    have : twoPow 63 = 9223372036854775808 := rfl
    omega
  have hsome : (words.search d kinks).isSome = true := by
    refine isSome_bind ?_ fun _ _ => rfl
    show (below (twoPow 63) (8 * (kinks + 2))).isSome = true
    rw [below, if_pos hbytes]
    rfl
  exact (sound_words.search d kinks).eq_some hsome

theorem Fits.toList_eq (h : Fits d.numX d.numY) :
    words.toList (Search.new d kinks) = some (Search.new d kinks).toList := by
  refine (sound_words.toList (Search.new d kinks)).eq_some ?_
  exact isSome_bind (visit_isSome h (fun _ _ _ => rfl) _) fun _ _ => rfl

end Machine

end BoundaryAtlas
