import BoundaryAtlas.Proofs.Boundary.Extension
import BoundaryAtlas.Proofs.Pipeline.Faults

/-!
# Sample times beyond the ends

A synthesizer may reject times beyond the ends of a boundary, or extend the boundary. With the same
solver both give the same answer, unless the first one meets a time that it rejects.
-/

namespace BoundaryAtlas

theorem mapM_eq_ok_mono {ε β γ : Type} {f g : β → Except ε γ}
    (h : ∀ x v, f x = .ok v → g x = .ok v) {l : List β} {l' : List γ} (hl : l.mapM f = .ok l') :
    l.mapM g = .ok l' :=
  mapM_eq_ok_iff.mpr ((mapM_eq_ok_iff.mp hl).imp h)

section

variable {α : Type} [Scalar α]

/-- The same settings and solver, for other times beyond the ends. -/
def Synthesizer.beyond (s : Synthesizer α) (ends : BeyondEnds) : Synthesizer α :=
  { s with config := { s.config with beyondEnds := ends } }

theorem TraceConstraints.ofBoundary_reject (b : Boundary α) (hb : b.KeepsValues)
    (times : List α) (c : TraceConfig α) :
    (∃ t ∈ times, ofBoundary b times { c with beyondEnds := .reject } =
      .error (.outsideDomain t b.first.x b.last.x)) ∨
    ofBoundary b times { c with beyondEnds := .reject } =
      ofBoundary b times { c with beyondEnds := .extend } := by
  cases hreject : times.mapM (target b { c with beyondEnds := .reject }) with
  | error f =>
    obtain ⟨t, ht, hf⟩ := exists_of_mapM_eq_error hreject
    obtain rfl := b.valueAt_eq_error t f hf
    refine .inl ⟨t, ht, ?_⟩
    rw [ofBoundary_def, hreject]
    rfl
  | ok targets =>
    have hextend : times.mapM (target b { c with beyondEnds := .extend }) = .ok targets :=
      mapM_eq_ok_mono hb hreject
    right
    rw [ofBoundary_def, ofBoundary_def, hreject, hextend]
    rfl

/-- The synthesizer that rejects times beyond the ends rejects one, or it answers like the one that
extends the boundary. -/
def Synthesizer.RejectsOrExtends (s : Synthesizer α) (b : Boundary α) (horizon : α) : Prop :=
  (∃ t ∈ s.config.times horizon,
    (s.beyond .reject).synthesize b horizon = .error (.outsideDomain t b.first.x b.last.x)) ∨
  (s.beyond .reject).synthesize b horizon = (s.beyond .extend).synthesize b horizon

theorem Synthesizer.rejectsOrExtends (s : Synthesizer α) (b : Boundary α) (hb : b.KeepsValues)
    (horizon : α) : s.RejectsOrExtends b horizon := by
  have hvalidate : ∀ ends, (s.beyond ends).config.validate = s.config.validate := fun _ => rfl
  unfold RejectsOrExtends
  cases hconfig : s.config.validate with
  | error f =>
    right
    rw [synthesize_def, synthesize_def, hvalidate, hvalidate, hconfig]
    rfl
  | ok u =>
    rw [synthesize_eq _ b horizon ((hvalidate .reject).trans hconfig),
      synthesize_eq _ b horizon ((hvalidate .extend).trans hconfig)]
    split
    · rcases TraceConstraints.ofBoundary_reject b hb (s.config.times horizon) s.config with
        ⟨t, ht, hreject⟩ | heq
      · refine .inl ⟨t, ht, ?_⟩
        change TraceConstraints.ofBoundary b (s.config.times horizon)
          { s.config with beyondEnds := .reject } >>= _ = _
        rw [hreject]
        rfl
      · right
        change TraceConstraints.ofBoundary b (s.config.times horizon)
          { s.config with beyondEnds := .reject } >>= _ = _
        rw [heq]
        rfl
    · exact .inr rfl

end

namespace Boundary

variable {α : Type} [ExactScalar α]

/-- **Extension.** Every finite time has an extended value, read inside the list of points, and it
is the value where there is one. In exact arithmetic the values beyond the ends go on from the value
at the end as steep as the nearest segment that is not vertical, and are constant if there is none.
So a synthesizer that rejects times beyond the ends either rejects one or answers like the one that
extends the boundary. -/
theorem extension_conservative (b : Boundary α) (hb : b.IsMonotone) (c : Boundary Float)
    (hc : c.IsMonotone) :
    (b.ExtendsSafely ∧ c.ExtendsSafely) ∧
      (∀ t, t < b.first.x - 1 / 10 ^ 9 → b.GoesOn b.first.x b.firstSlope? t) ∧
      (∀ t, b.last.x + 1 / 10 ^ 9 < t → b.GoesOn b.last.x b.lastSlope? t) ∧
      (∀ (s : Synthesizer α) (horizon : α), s.RejectsOrExtends b horizon) ∧
      ∀ (s : Synthesizer Float) (horizon : Float), s.RejectsOrExtends c horizon := by
  have hexact := hb.extendsSafely slackKeepsNumbers_exact
  have hfloat := hc.extendsSafely slackKeepsNumbers_float
  exact ⟨⟨hexact, hfloat⟩, hb.isAccepted.goesOn_before, hb.isAccepted.goesOn_after,
    fun s horizon => s.rejectsOrExtends b hexact.keeps horizon,
    fun s horizon => s.rejectsOrExtends c hfloat.keeps horizon⟩

/-- A falling line between two columns, each of them with a jump. -/
def endJumps (α : Type) [Scalar α] : Boundary α where
  points := [⟨Scalar.ofNat 0, Scalar.ofDecimal 2 1⟩, ⟨Scalar.ofNat 0, Scalar.ofDecimal 6 1⟩,
    ⟨Scalar.ofNat 10, Scalar.ofDecimal 1 1⟩, ⟨Scalar.ofNat 10, Scalar.ofDecimal 9 1⟩]
  nonempty := by simp

/-- The line goes on from the upper point of either column. -/
theorem extension_conservative_endJumps :
    (endJumps ℚ).IsMonotone ∧ (endJumps Float).IsMonotone ∧ (endJumps Float).ExtendsSafely ∧
      (endJumps ℚ).GoesOn 0 (some (-1 / 20)) (-2) ∧
      (endJumps ℚ).GoesOn 10 (some (-1 / 20)) 12 := by
  have hb : ofPoints (endJumps ℚ).points = .ok (endJumps ℚ) := by decide +kernel
  have hc : ofPoints (endJumps Float).points = .ok (endJumps Float) := by rfl
  have hb := (isAccepted_of_ofPoints hb).isMonotone
  have hc := (isAccepted_of_ofPoints hc).isMonotone
  obtain ⟨⟨-, hsafe⟩, hbefore, hafter, -⟩ := extension_conservative _ hb _ hc
  have hfirst : (endJumps ℚ).firstSlope? = some (-1 / 20) := by decide +kernel
  have hlast : (endJumps ℚ).lastSlope? = some (-1 / 20) := by decide +kernel
  have hbefore := hbefore (-2) (by decide +kernel)
  have hafter := hafter 12 (by decide +kernel)
  rw [hfirst] at hbefore
  rw [hlast] at hafter
  exact ⟨hb, hc, hsafe, hbefore, hafter⟩

end Boundary

end BoundaryAtlas
