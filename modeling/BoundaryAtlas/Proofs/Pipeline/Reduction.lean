import Mathlib.Logic.Relation
import BoundaryAtlas.Proofs.Boundary.Deletion
import BoundaryAtlas.Proofs.Grid.Enumeration
import BoundaryAtlas.Proofs.Grid.Place
import BoundaryAtlas.Proofs.Pipeline.Labeling

/-!
# Reducing a grid boundary to canonical form

Taking out points on straight lines, in any order, ends with a canonical boundary. It has the same
trace and the same label as the boundary that it came from, so the canonical boundaries answer for
all boundaries of the grid.
-/

namespace BoundaryAtlas

/-! ## Reduction -/

namespace GridBoundary

/-- The second boundary is the first one without an inner point on a straight line. -/
inductive Deletes : GridBoundary → GridBoundary → Prop
  | inner (before : List GridPoint) (p q r : GridPoint) (after : List GridPoint)
      (h : GridPoint.collinear p q r = true) :
      Deletes ⟨before ++ p :: q :: r :: after⟩ ⟨before ++ p :: r :: after⟩

/-- The second boundary is left after some points were deleted, one after the other. -/
def Reduces : GridBoundary → GridBoundary → Prop := Relation.ReflTransGen Deletes

/-- No point can be deleted. -/
def IsReduced (b : GridBoundary) : Prop := ∀ c, ¬ b.Deletes c

theorem Deletes.length_lt {b c : GridBoundary} (h : b.Deletes c) :
    c.points.length < b.points.length := by
  obtain ⟨before, p, q, r, after, -⟩ := h
  simp

theorem wellFounded_deletes : WellFounded fun c b : GridBoundary => b.Deletes c :=
  Subrelation.wf (fun h => h.length_lt) (measure fun b : GridBoundary => b.points.length).wf

theorem exists_reduced (b : GridBoundary) : ∃ c, b.Reduces c ∧ c.IsReduced := by
  induction b using wellFounded_deletes.induction with
  | _ b ih =>
    by_cases hb : b.IsReduced
    · exact ⟨b, .refl, hb⟩
    · obtain ⟨c, hc⟩ := not_forall_not.mp hb
      obtain ⟨c', hc', hred⟩ := ih c hc
      exact ⟨c', .head hc hc', hred⟩

theorem IsReduced.bends {b : GridBoundary} (h : b.IsReduced) (p q r : GridPoint)
    (hpqr : [p, q, r] <:+: b.points) : GridPoint.cross p q r ≠ 0 := by
  obtain ⟨points⟩ := b
  obtain ⟨before, after, rfl⟩ := hpqr
  intro hcross
  have hcol : GridPoint.collinear p q r = true := by simp [GridPoint.collinear, hcross]
  apply h ⟨before ++ p :: r :: after⟩
  simpa using Deletes.inner before p q r after hcol

variable {α : Type}

theorem IsValid.of_deletes {d : Grid α} {b c : GridBoundary} (hb : b.IsValid d)
    (h : b.Deletes c) : c.IsValid d := by
  obtain ⟨hnodes, hstarts, hends, hord⟩ := hb
  obtain ⟨before, p, q, r, after, -⟩ := h
  refine ⟨?_, ?_, ?_, ?_⟩
  · intro o ho
    apply hnodes
    simp only [List.mem_append, List.mem_cons] at ho ⊢
    tauto
  · obtain ⟨s, rest, hs⟩ := exists_first before p
    simpa only [hs, List.head?_cons] using hstarts
  · simpa using hends
  · rw [List.isChain_append] at hord ⊢
    obtain ⟨hbefore, hafter, hjoin⟩ := hord
    simp only [List.isChain_cons_cons] at hafter ⊢
    obtain ⟨hpq, hqr, hrest⟩ := hafter
    exact ⟨hbefore, ⟨hpq.trans hqr, hrest⟩, hjoin⟩

theorem IsValid.of_reduces {d : Grid α} {b c : GridBoundary} (hb : b.IsValid d)
    (h : b.Reduces c) : c.IsValid d := by
  induction h with
  | refl => exact hb
  | tail _ h ih => exact ih.of_deletes h

theorem Deletes.place [ExactScalar α] {b c : GridBoundary} (h : b.Deletes c) (d : Grid α)
    (hx : 0 < d.xSpacing) (hy : 0 < d.ySpacing) :
    Point.Deletes (b.points.map (GridBoundary.place d)) (c.points.map (GridBoundary.place d)) := by
  obtain ⟨before, p, q, r, after, h⟩ := h
  have hcross : GridPoint.cross p q r = 0 := by simpa [GridPoint.collinear] using h
  simp only [List.map_append, List.map_cons]
  exact .inner _ _ _ _ _ ((straight_place_iff d hx hy p q r).mpr hcross)

end GridBoundary

/-! ## The answers for boundaries with the same values -/

variable {α σ : Type}

theorem TraceConstraints.target_eq_of_deletes [ExactScalar α] {b c : Boundary α}
    (h : b.Deletes c) (hord : Point.Ordered b.points) (config : TraceConfig α) :
    target b config = target c config := by
  funext t
  rw [target_def, target_def, h.valueAt_eq hord t, h.extendedValueAt_eq hord t]

theorem Synthesizer.synthesize_congr [Scalar α] (s : Synthesizer α) (b c : Boundary α)
    (horizon : α)
    (h : TraceConstraints.target b s.config = TraceConstraints.target c s.config) :
    s.synthesize b horizon = s.synthesize c horizon := by
  simp only [synthesize_def, TraceConstraints.ofBoundary_def, h]

/-- The label of an outcome, or its fault. -/
def Outcome.answer : Outcome α → Except (Fault α) Bool
  | .labeled record => .ok record.label
  | .failed _ fault => .error fault

namespace Pipeline

theorem answer_labelGrid [Scalar α] (p : Pipeline α σ) (d : Grid α) (b : GridBoundary)
    (s : Session α σ) : (p.labelGrid d b s).1.answer = (p.verdict d b s).map Prod.snd := by
  rw [labelGrid_fst]
  cases p.verdict d b s <;> rfl

variable [ExactScalar α]

theorem target_deletes (p : Pipeline α σ) {b c : Boundary α} (h : b.Deletes c) :
    (p.target b).Deletes (p.target c) := by
  unfold target
  split
  · exact h.invert p.box
  · exact h

theorem ordered_target (p : Pipeline α σ) (b : Boundary α) (h : Point.Ordered b.points) :
    Point.Ordered (p.target b).points := by
  unfold target
  split
  · exact b.ordered_invert p.box h
  · exact h

theorem verdict_of_deletes (p : Pipeline α σ) (d : Grid α) (hd : d.validate = .ok ())
    {b c : GridBoundary} (hb : b.IsValid d) (h : b.Deletes c) (s : Session α σ) :
    p.verdict d b s = p.verdict d c s := by
  obtain ⟨hx, hy, -⟩ := d.pos_of_validate hd
  obtain ⟨b', hb', hbpoints, hbord⟩ := hb.toBoundary_eq hx
  obtain ⟨c', hc', hcpoints, -⟩ := (hb.of_deletes h).toBoundary_eq hx
  have hdel : b'.Deletes c' := by
    rw [Boundary.Deletes, hbpoints, hcpoints]
    exact h.place d hx hy
  have htarget := TraceConstraints.target_eq_of_deletes (p.target_deletes hdel)
    (p.ordered_target b' hbord) p.synth.config
  have hsynth := p.synth.synthesize_congr (p.target b') (p.target c') p.horizon htarget
  rw [verdict, verdict, hb', hc']
  simp only [bind, Except.bind, label_fst, hsynth]

theorem verdict_of_reduces (p : Pipeline α σ) (d : Grid α) (hd : d.validate = .ok ())
    {b c : GridBoundary} (hb : b.IsValid d) (h : b.Reduces c) (s : Session α σ) :
    p.verdict d b s = p.verdict d c s := by
  induction h with
  | refl => rfl
  | tail hreach h ih => rw [ih, p.verdict_of_deletes d hd (hb.of_reduces hreach) h s]

/-- **Reduction.** Deleting points on straight lines from a boundary of the grid ends, and
whatever the order was, a search finds the boundary that is left. Its trace and label, or its
fault, are those of the first boundary. -/
theorem reduction_keeps_verdict (p : Pipeline α σ) (hp : p.labeler.IsPure) (d : Grid α)
    (hd : d.validate = .ok ()) (b : GridBoundary) (hb : b.validate d = .ok ()) :
    (WellFounded fun c b : GridBoundary => b.Deletes c) ∧
    (∃ c, b.Reduces c ∧ c.IsReduced) ∧
    ∀ c, b.Reduces c → c.IsReduced →
      c ∈ (Search.new d c.kinks).toList ∧ c.kinks ≤ d.kinkLimit ∧
      ∀ s t, p.verdict d b s = p.verdict d c t ∧
        (p.labelGrid d b s).1.answer = (p.labelGrid d c t).1.answer := by
  have hvalid := (b.validate_eq_ok_iff d).mp hb
  obtain ⟨-, -, hnumX, -⟩ := d.pos_of_validate hd
  refine ⟨GridBoundary.wellFounded_deletes, b.exists_reduced, fun c hbc hred => ?_⟩
  have hc : c.IsCanonical d c.kinks := (hvalid.of_reduces hbc).isCanonical hnumX hred.bends
  have hverdict : ∀ s t, p.verdict d b s = p.verdict d c t := by
    intro s t
    rw [p.verdict_of_reduces d hd hvalid hbc s, p.verdict_of_isPure hp d c s t]
  refine ⟨(Search.mem_toList_new d _ c).mpr hc, Search.kinks_le_of_isCanonical hc, fun s t => ?_⟩
  exact ⟨hverdict s t, by rw [answer_labelGrid, answer_labelGrid, hverdict s t]⟩

/-- A boundary with three points in one column. -/
def overshoot : GridBoundary := ⟨[⟨0, 0⟩, ⟨1, 2⟩, ⟨1, 0⟩, ⟨1, 1⟩, ⟨2, 1⟩]⟩

theorem reduction_keeps_verdict_overshoot :
    (lowerHalf .halves).labeler.IsPure ∧ Grid.halves.validate = .ok () ∧
    overshoot.validate Grid.halves = .ok () ∧
    ∃ c, overshoot.Reduces c ∧ c ∈ (Search.new Grid.halves c.kinks).toList ∧
      ∀ s t, (lowerHalf .halves).verdict .halves overshoot s =
        (lowerHalf .halves).verdict .halves c t := by
  have hpure := lowerHalf_isPure .halves
  have hd : Grid.halves.validate = .ok () := by decide +kernel
  have hb : overshoot.validate Grid.halves = .ok () := by decide +kernel
  obtain ⟨-, ⟨c, hbc, hred⟩, hall⟩ :=
    reduction_keeps_verdict (lowerHalf .halves) hpure .halves hd overshoot hb
  obtain ⟨hmem, -, hverdict⟩ := hall c hbc hred
  exact ⟨hpure, hd, hb, c, hbc, hmem, fun s t => (hverdict s t).1⟩

end Pipeline

end BoundaryAtlas
