import BoundaryAtlas.Proofs.Trace.Unbounded
import BoundaryAtlas.Proofs.Atlas.Reports

/-!
# Surveys with tubes of different widths

If steps have no bound, then a trace stays the same when the tubes are widened, and so does its
label. A survey with wider tubes keeps all labels, and may have more.
-/

namespace BoundaryAtlas

variable {α σ : Type} [ExactScalar α]

theorem Synthesizer.getElem_of_unbounded (config : TraceConfig α) (solver : SolverConfig α)
    (hclock : solver.NeverOverdue) (hslack : solver.slack = 0) (hrate : config.rateBound? = none)
    (b : Boundary α) (horizon : α) (points : Trace α)
    (h : (chain config solver).synthesize b horizon = .ok points) :
    points.length = config.numPoints ∧
    ∀ i (hi : i < points.length), points[i].x = horizon * i / (config.numPoints - 1) ∧
      ∃ v, TraceConstraints.target b config points[i].x = .ok v ∧
        points[i].y = Scalar.clamp v config.stateMin config.stateMax := by
  obtain ⟨hconfig, -, targets, htargets, -, rfl⟩ :=
    (synthesize_none_iff config solver hclock hslack hrate b horizon points).mp h
  obtain ⟨-, hpoints, -⟩ := config.validate_eq_ok_iff.mp hconfig
  have htimes := config.length_times horizon
  have hlength := htargets.length_eq
  refine ⟨by rw [List.length_zipWith, List.length_map, ← hlength, htimes, min_self], ?_⟩
  intro i hi
  rw [List.length_zipWith, List.length_map, ← hlength, min_self] at hi
  simp only [List.getElem_zipWith, List.getElem_map]
  exact ⟨config.getElem_times hpoints horizon i hi, _, htargets.get hi (hlength ▸ hi), rfl⟩

namespace Pipeline

/-- The pipeline `q` finds each trace that `p` finds, and does the same with it. -/
structure Extends (p q : Pipeline α σ) : Prop where
  labeler : q.labeler = p.labeler
  target : q.target = p.target
  horizon : q.horizon = p.horizon
  traces : ∀ b points, p.synth.synthesize b p.horizon = .ok points →
    q.synth.synthesize b p.horizon = .ok points

namespace Extends

variable {p q : Pipeline α σ} (h : Extends p q)

include h

theorem label (hpure : p.labeler.IsPure) (b : Boundary α) (s t : Session α σ)
    (answer : Trace α × Bool) (hanswer : (p.label b s).1 = .ok answer) :
    (q.label b t).1 = .ok answer := by
  rw [label_fst] at hanswer ⊢
  rw [h.labeler, h.target, h.horizon]
  cases htrace : p.synth.synthesize (p.target b) p.horizon with
  | error f =>
    rw [htrace] at hanswer
    cases hanswer
  | ok trace =>
    rw [h.traces _ trace htrace, ← hanswer, htrace]
    simp only [Except.map, hpure t.labeler s.labeler]

theorem traceOf (d : Grid α) (b : GridBoundary) (trace : Trace α)
    (htrace : p.traceOf d b = .ok trace) : q.traceOf d b = .ok trace := by
  obtain ⟨boundary, hplace, htrace⟩ := exists_of_bind_eq_ok htrace
  rw [Pipeline.traceOf, hplace, h.target, h.horizon]
  exact h.traces _ trace htrace

theorem gives (hpure : p.labeler.IsPure) (d : Grid α) (config : SurveyConfig) (s : Session α σ)
    (hrun : p.preflight d = .ok ()) (hrun' : q.preflight d = .ok ()) :
    ∃ m m' : Atlas α, p.Gives d config m ∧ q.Gives d config m' ∧
      ∀ b label, m.get? b = some label → m'.get? b = some label := by
  refine ⟨_, _, p.gives_of_isPure hpure d config hrun s,
    q.gives_of_isPure (h.labeler ▸ hpure) d config hrun' s, fun b label hlabel => ?_⟩
  rw [get?_ofOutcomes_labelGrid] at hlabel ⊢
  obtain ⟨⟨trace, htrace, hverdict⟩, hlisted⟩ := hlabel
  rw [← h.labeler] at hverdict
  exact ⟨⟨trace, h.traceOf d b trace htrace, hverdict⟩, hlisted⟩

end Extends

/-- The pipeline with tubes of another width. -/
def widened (p : Pipeline α σ) (epsilon : α) : Pipeline α σ :=
  { p with synth := ⟨p.synth.config.widened epsilon, p.synth.solve⟩ }

theorem extends_widened (config : TraceConfig α) (solver : SolverConfig α)
    (hclock : solver.NeverOverdue) (hslack : solver.slack = 0) (hrate : config.rateBound? = none)
    (p : Pipeline α σ) (hsynth : p.synth = .chain config solver) (epsilon : α)
    (hle : config.epsilon ≤ epsilon) : Extends p (p.widened epsilon) := by
  refine ⟨rfl, rfl, rfl, fun b points h => ?_⟩
  unfold widened
  rw [hsynth] at h ⊢
  exact Synthesizer.synthesize_widened config solver hclock hslack hrate epsilon hle b _ points h

theorem preflight_widened (p : Pipeline α σ) (epsilon : α) (hle : p.synth.config.epsilon ≤ epsilon)
    (d : Grid α) (h : p.preflight d = .ok ()) : (p.widened epsilon).preflight d = .ok () := by
  obtain ⟨_, hgrid, h⟩ := exists_of_bind_eq_ok h
  obtain ⟨hhorizon, h⟩ := throw_or_eq_ok_iff.mp h
  obtain ⟨_, hconfig, hdomain⟩ := exists_of_bind_eq_ok h
  have hconfig' : (p.widened epsilon).synth.config.validate = .ok () :=
    p.synth.config.validate_widened epsilon hle hconfig
  rw [preflight, hgrid]
  refine throw_or_eq_ok_iff.mpr ⟨hhorizon, ?_⟩
  rw [validate, hconfig']
  exact hdomain

/-- **Wider tubes.** Let steps have no bound, let the solver have no slack, and let it come back in
time. Then the states of a trace are the values of the boundary at the sample times, clamped to the
state box. So if the tubes are widened, then each boundary that has a trace keeps it, and keeps the
label of a pure labeler, and an atlas keeps all of its labels. -/
theorem widened_keeps_labels (config : TraceConfig α) (solver : SolverConfig α)
    (hclock : solver.NeverOverdue) (hslack : solver.slack = 0) (hrate : config.rateBound? = none) :
    (∀ b horizon points, (Synthesizer.chain config solver).synthesize b horizon = .ok points →
      points.length = config.numPoints ∧
      ∀ i (hi : i < points.length), points[i].x = horizon * i / (config.numPoints - 1) ∧
        ∃ v, TraceConstraints.target b config points[i].x = .ok v ∧
          points[i].y = Scalar.clamp v config.stateMin config.stateMax) ∧
    ∀ p : Pipeline α σ, p.synth = .chain config solver → p.labeler.IsPure →
      ∀ epsilon, config.epsilon ≤ epsilon →
        (∀ b s t answer, (p.label b s).1 = .ok answer →
          ((p.widened epsilon).label b t).1 = .ok answer) ∧
        ∀ d survey, Session α σ → p.preflight d = .ok () → ∃ narrow wide : Atlas α,
          p.Gives d survey narrow ∧ (p.widened epsilon).Gives d survey wide ∧
          ∀ b label, narrow.get? b = some label → wide.get? b = some label := by
  refine ⟨Synthesizer.getElem_of_unbounded config solver hclock hslack hrate, ?_⟩
  intro p hsynth hpure epsilon hle
  have hextends := p.extends_widened config solver hclock hslack hrate hsynth epsilon hle
  refine ⟨hextends.label hpure, fun d survey s hrun => ?_⟩
  have hrun' := p.preflight_widened epsilon (by rwa [hsynth]) d hrun
  exact hextends.gives hpure d survey s hrun hrun'

/-- A grid whose upper row lies above the state box. -/
def overhang : Grid ℚ := ⟨1, 1, 21 / 20, 1⟩

/-- A pipeline on that grid whose tubes are too narrow for the upper row. -/
def topping : Pipeline ℚ Unit :=
  onGrid (.chain ⟨1 / 50, 3, none, 0, 1, .reject⟩ Chain.strict)
    (.ofFn "top" fun trace => trace.any fun q => decide (q.y = 1)) overhang

/-- A boundary that starts above the state box, by the width of a tube. -/
def ramped : Boundary ℚ := ⟨[⟨0, 51 / 50⟩, ⟨1, 0⟩], by decide⟩

/-- The trace starts at the top of the state box. In the wider tubes the upper row has a label. -/
theorem widened_keeps_labels_topping :
    Chain.strict.NeverOverdue ∧ Chain.strict.slack = 0 ∧
    topping.synth.config.rateBound? = none ∧ topping.labeler.IsPure ∧
    topping.preflight overhang = .ok () ∧
    topping.synth.synthesize ramped 1 = .ok [⟨0, 1⟩, ⟨1 / 2, 51 / 100⟩, ⟨1, 0⟩] ∧
    (∃ v, TraceConstraints.target ramped topping.synth.config 0 = .ok v ∧ 1 = Scalar.clamp v 0 1) ∧
    ∃ narrow wide : Atlas ℚ, topping.Gives overhang ⟨0, none⟩ narrow ∧
      (topping.widened (1 / 10)).Gives overhang ⟨0, none⟩ wide ∧
      narrow.get? ⟨[⟨0, 0⟩, ⟨1, 0⟩]⟩ = some false ∧ wide.get? ⟨[⟨0, 0⟩, ⟨1, 0⟩]⟩ = some false ∧
      narrow.get? ⟨[⟨0, 1⟩, ⟨1, 1⟩]⟩ = none ∧ wide.get? ⟨[⟨0, 1⟩, ⟨1, 1⟩]⟩ = some true := by
  have hclock : Chain.strict.NeverOverdue := SolverConfig.neverOverdue_of_none _ rfl
  have hpure : topping.labeler.IsPure := Labeler.ofFn_isPure _ _
  have hle : topping.synth.config.epsilon ≤ 1 / 10 := by decide +kernel
  have hrun : topping.preflight overhang = .ok () := by decide +kernel
  have hpoints : topping.synth.synthesize ramped 1 =
      .ok [⟨0, 1⟩, ⟨1 / 2, 51 / 100⟩, ⟨1, 0⟩] := by decide +kernel
  have hnarrow : (topping.survey overhang ⟨0, none⟩ .never (.new () false)).1.map
      (fun m => (m.get? ⟨[⟨0, 0⟩, ⟨1, 0⟩]⟩, m.get? ⟨[⟨0, 1⟩, ⟨1, 1⟩]⟩)) =
        .ok (some false, none) := by decide +kernel
  have hwide : ((topping.widened (1 / 10)).survey overhang ⟨0, none⟩ .never (.new () false)).1.map
      (fun m => m.get? ⟨[⟨0, 1⟩, ⟨1, 1⟩]⟩) = .ok (some true) := by decide +kernel
  obtain ⟨hstates, hkeeps⟩ := widened_keeps_labels (σ := Unit) topping.synth.config Chain.strict
    hclock rfl rfl
  obtain ⟨-, hstate⟩ := hstates ramped 1 _ hpoints
  obtain ⟨-, hsurvey⟩ := hkeeps topping rfl hpure (1 / 10) hle
  obtain ⟨narrow, wide, hgives, hgives', hsub⟩ :=
    hsurvey overhang ⟨0, none⟩ (.new () false) hrun
  rw [hgives.1] at hnarrow
  rw [hgives'.1] at hwide
  obtain ⟨hflat, htop⟩ := Prod.mk.inj (Except.ok.inj hnarrow)
  exact ⟨hclock, rfl, rfl, hpure, hrun, hpoints, (hstate 0 (by decide)).2, narrow, wide, hgives,
    hgives', hflat, hsub _ _ hflat, htop, Except.ok.inj hwide⟩

end Pipeline

end BoundaryAtlas
