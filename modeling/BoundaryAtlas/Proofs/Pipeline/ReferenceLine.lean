import BoundaryAtlas.Proofs.Labeler.Coverage
import BoundaryAtlas.Proofs.Boundary.Simplification
import BoundaryAtlas.Proofs.Trace.HalfTurn
import BoundaryAtlas.Proofs.Trace.OnTarget
import BoundaryAtlas.Pipeline.ReferenceLine

/-!
# The reference line is positive

All samples of the line but the ends are dropped, the boundary that is left is its own trace, and at
each time of the trace it lies between the curves of the reference envelope.
-/

namespace BoundaryAtlas

variable {α : Type} [ExactScalar α]

/-! ## The boundary -/

namespace Boundary

/-- The value of the reference line at `t`. -/
def height (t : α) : α := -Scalar.ofDecimal 3 2 * t + Scalar.ofDecimal 75 2

theorem height_eq (t : α) : height t = -(3 / 100) * t + 3 / 4 := by
  unfold height
  rw [ExactScalar.ofDecimal_eq, ExactScalar.ofDecimal_eq]
  norm_num

/-- The reference line from side to side of the box. -/
def descent : Boundary α where
  points := [⟨Scalar.ofNat 0, height (Scalar.ofNat 0)⟩, ⟨Scalar.ofNat 20, height (Scalar.ofNat 20)⟩]
  nonempty := by simp

theorem points_descent : (descent : Boundary α).points = [⟨0, 3 / 4⟩, ⟨20, 3 / 20⟩] := by
  norm_num [descent, height_eq]

theorem domain_descent : (descent : Boundary α).domain = ⟨0, 20⟩ := by
  simp [domain, first, last, points_descent]

theorem isAccepted_descent : (descent : Boundary α).IsAccepted := by
  apply isAccepted_of_increasing
  simp [points_descent]

theorem follows_height : (descent : Boundary α).Follows height where
  last := rfl
  chord k h t hleft hright := by
    obtain rfl : k = 0 := by simpa [descent] using h
    rw [Point.mem_segment_iff_of_lt (hleft.trans_lt hright)]
    refine ⟨hleft, hright.le, ?_⟩
    simp only [points_descent, List.getElem_cons_zero, List.getElem_cons_succ, height_eq,
      Point.steepness]
    ring

theorem valueInside_descent (t : α) (ht : t ∈ (descent : Boundary α).domain) :
    descent.valueInside t = height t :=
  isAccepted_descent.follows_valueInside.eq isAccepted_descent follows_height t ht

end Boundary

open Boundary (height descent)

/-! ## The trace -/

/-- The settings are valid, the line fits into the state box, and its fall from sample to sample
into the step bound. -/
structure TraceConfig.HasRoom (config : TraceConfig α) : Prop where
  valid : config.validate = .ok ()
  min_le : config.stateMin ≤ 3 / 20
  le_max : 3 / 4 ≤ config.stateMax
  rate : ∀ rate ∈ config.rateBound?, 3 / 5 / (config.numPoints - 1) ≤ rate

theorem TraceConfig.mem_domain_descent (config : TraceConfig α) (hpoints : 2 ≤ config.numPoints) :
    ∀ t ∈ config.times 20, t ∈ (descent : Boundary α).domain := by
  rw [Boundary.domain_descent]
  exact fun t ht => config.mem_of_mem_times hpoints 20 t (by norm_num) ht

theorem TraceConfig.isChain_height (config : TraceConfig α) (hpoints : 2 ≤ config.numPoints)
    (hrate : ∀ rate ∈ config.rateBound?, 3 / 5 / (config.numPoints - 1) ≤ rate) :
    ((config.times 20).map height).IsChain (Chain.StepsTo config.rateBound?) := by
  have hlast : (0 : α) < config.numPoints - 1 := by
    rw [sub_pos, Nat.one_lt_cast]
    omega
  rw [List.isChain_iff_getElem]
  intro i hi rate hbound
  rw [List.length_map] at hi
  have hstep : height (20 * ((i + 1 : ℕ) : α) / (config.numPoints - 1)) -
      height (20 * (i : α) / (config.numPoints - 1)) = -(3 / 5 / (config.numPoints - 1)) := by
    rw [Boundary.height_eq, Boundary.height_eq, Nat.cast_succ]
    ring
  rw [List.getElem_map, List.getElem_map, config.getElem_times hpoints 20 i (by omega),
    config.getElem_times hpoints 20 (i + 1) hi, hstep, abs_neg, abs_of_pos (by positivity)]
  exact hrate rate hbound

theorem Synthesizer.synthesize_descent (config : TraceConfig α) (solver : SolverConfig α)
    (hroom : config.HasRoom) (hclock : solver.NeverOverdue) (hslack : 0 ≤ solver.slack) :
    (chain config solver).synthesize descent 20 =
      .ok ((config.times 20).map fun t => ⟨t, height t⟩) := by
  obtain ⟨hconfig, hmin, hmax, hrate⟩ := hroom
  obtain ⟨-, hpoints, -⟩ := config.validate_eq_ok_iff.mp hconfig
  have htimes := config.mem_domain_descent hpoints
  have hbox : ∀ t ∈ (descent : Boundary α).domain,
      descent.valueInside t ∈ (⟨config.stateMin, config.stateMax⟩ : Interval α) := by
    intro t ht
    apply descent.valueInside_mem _ _ t ht.1
    simp only [Boundary.points_descent, List.forall_mem_cons, Interval.mem_iff]
    refine ⟨⟨?_, hmax⟩, ⟨hmin, ?_⟩, by simp⟩ <;> linarith
  have hvalues : (config.times 20).map descent.valueInside = (config.times 20).map height :=
    List.map_congr_left fun t ht => Boundary.valueInside_descent t (htimes t ht)
  rw [synthesize_on_target config solver hclock hslack descent 20 hconfig (by norm_num)
    Boundary.domain_descent hbox (by rw [hvalues]; exact config.isChain_height hpoints hrate)]
  refine congrArg Except.ok (List.map_congr_left fun t ht => ?_)
  rw [Boundary.valueInside_descent t (htimes t ht)]

/-! ## The verdict -/

namespace Envelope

theorem isAccepted_upper : (canonical : Envelope α).upper.IsAccepted where
  finite := by simp
  increasing := by norm_num [canonical, anchor]

theorem isAccepted_lower : (canonical : Envelope α).lower.IsAccepted where
  finite := by simp
  increasing := by norm_num [canonical, anchor]

theorem requireCover_canonical : (canonical : Envelope α).requireCover 0 20 = .ok () := by
  rw [requireCover_eq_ok_iff]
  simp [canonical, anchor, Curve.domain]

/-- The line lies between the curves, for the upper anchors lie above it and the lower ones below. -/
theorem height_between (t : α) (ht : t ∈ (descent : Boundary α).domain) :
    (∃ u, (canonical : Envelope α).upper.eval? t = some u ∧ height t ≤ u) ∧
      ∃ l, (canonical : Envelope α).lower.eval? t = some l ∧ l ≤ height t := by
  rw [Boundary.domain_descent] at ht
  obtain ⟨⟨u, hu⟩, l, hl⟩ := canonical.exists_eval?_of_requireCover 0 20 t requireCover_canonical ht
  have hupper := isAccepted_upper.mem_halfPlane (3 / 100 : α) 1 (-(3 / 4))
    (by norm_num [canonical, anchor, Point.mem_halfPlane_iff]) t u hu
  have hlower := isAccepted_lower.mem_halfPlane (-(3 / 100) : α) (-1) (3 / 4)
    (by norm_num [canonical, anchor, Point.mem_halfPlane_iff]) t l hl
  rw [Point.mem_halfPlane_iff] at hupper hlower
  rw [Boundary.height_eq]
  exact ⟨⟨u, hu, by linarith⟩, l, hl, by linarith⟩

end Envelope

theorem EnvelopeRule.classify_height (demand : LowerDemand) (times : List α)
    (htimes : ∀ t ∈ times, t ∈ (descent : Boundary α).domain) :
    (⟨.canonical, demand⟩ : EnvelopeRule α).classify (times.map fun t => ⟨t, height t⟩) = true := by
  rw [classify_iff]
  constructor
  · intro i hi
    rw [List.getElem_map]
    exact (Envelope.height_between _ (htimes _ (List.getElem_mem _))).1
  · intro i hi
    obtain ⟨l, hl, hle⟩ := (Envelope.height_between _
      (htimes _ (List.getElem_mem (by simpa using hi : i < times.length)))).2
    rw [List.getElem_map]
    exact ⟨l, hl, fun _ => ⟨i, hi, le_refl i, by rw [List.getElem_map]; exact hle⟩, fun _ => hle⟩

/-! ## The line -/

namespace Pipeline

theorem linePoint_canonical (i : Nat) :
    linePoint (.canonical : Box α) i = ⟨i / 10, height (i / 10)⟩ := by
  have hx : (linePoint (.canonical : Box α) i).x = i / 10 := by
    simp only [linePoint, Box.canonical, ExactScalar.ofNat_eq, lineSamples]
    push_cast
    ring
  rw [← hx]
  rfl

theorem pairwise_linePoint :
    ((List.range (lineSamples + 1)).map (linePoint (.canonical : Box α))).Pairwise
      fun p q => p.x < q.x := by
  rw [List.pairwise_map]
  refine List.pairwise_lt_range.imp fun h => ?_
  simp only [linePoint_canonical]
  exact div_lt_div_of_pos_right (Nat.cast_lt.mpr h) (by norm_num)

theorem referenceLine_canonical : referenceLine (.canonical : Box ℝ) = .ok descent := by
  obtain ⟨dense, hdense, hpoints⟩ := Boundary.ofSamples_of_line (Scalar.ofDecimal 1 9 : ℝ)
    (by simp) (-(3 / 100)) (3 / 4) _ (by simp [lineSamples]) pairwise_linePoint
    (List.forall_mem_map.mpr fun i _ => Boundary.height_eq _)
  have hends : dense.points = (descent : Boundary ℝ).points := by
    rw [hpoints]
    simp only [List.getElem_map, List.getElem_range, List.length_map, List.length_range,
      linePoint_canonical, lineSamples, Boundary.points_descent, Boundary.height_eq]
    norm_num
  have hinside : dense.points.filter Box.canonical.contains = (descent : Boundary ℝ).points := by
    rw [hends, List.filter_eq_self]
    norm_num [Boundary.points_descent, Box.contains, Box.canonical]
  unfold referenceLine
  simp only [hdense, bind, Except.bind, hinside]
  exact Boundary.ofPoints_eq _ _ Boundary.isAccepted_descent.ordered.isChain

theorem positiveReference_of_label {σ : Type} (p : Pipeline ℝ σ) (s : Session ℝ σ)
    (b : Boundary ℝ) (trace : Trace ℝ) (hb : referenceLine p.box = .ok b)
    (hlabel : (p.label b s).1 = .ok (trace, true)) : (positiveReference p s).1 = .ok b := by
  unfold positiveReference
  rw [hb]
  rcases hp : p.label b s with ⟨answer, later⟩
  rw [hp] at hlabel
  cases hlabel
  simp only [hp]

/-- A pipeline with the reference envelope, on the box that it is written for. -/
def canonical (config : TraceConfig α) (solver : SolverConfig α) (demand : LowerDemand) :
    Pipeline α Unit :=
  ⟨.chain config solver, (⟨.canonical, demand⟩ : EnvelopeRule α).labeler, .canonical, false⟩

theorem label_descent (config : TraceConfig α) (solver : SolverConfig α) (demand : LowerDemand)
    (s : Session α Unit) (hroom : config.HasRoom) (hclock : solver.NeverOverdue)
    (hslack : 0 ≤ solver.slack) :
    ((canonical config solver demand).label descent s).1 =
      .ok ((config.times 20).map fun t => ⟨t, height t⟩, true) := by
  obtain ⟨-, hpoints, -⟩ := config.validate_eq_ok_iff.mp hroom.valid
  have hhorizon : (Scalar.ofNat 20 : α) = 20 := by simp
  rw [label_fst]
  change ((Synthesizer.chain config solver).synthesize descent (Scalar.ofNat 20)).map _ = _
  rw [hhorizon, Synthesizer.synthesize_descent config solver hroom hclock hslack]
  exact congrArg (fun verdict => Except.ok (_, verdict))
    (EnvelopeRule.classify_height demand _ (config.mem_domain_descent hpoints))

/-- **Reference line.** With the reference envelope, on its own box, a pipeline labels the reference
line positive, and the line has no points but its ends. The line has to fit into the state box, and
its fall from sample to sample into the step bound. How many samples there are, how wide the tubes
are, what the solver's slack is and what the lower curve asks for makes no difference. -/
theorem positiveReference_canonical (config : TraceConfig ℝ) (solver : SolverConfig ℝ)
    (demand : LowerDemand) (s : Session ℝ Unit) (hroom : config.HasRoom)
    (hslack : 0 ≤ solver.slack) (htimeout : solver.timeoutMs? = none) :
    ∃ b, (positiveReference (canonical config solver demand) s).1 = .ok b ∧
      b.points = [⟨0, 3 / 4⟩, ⟨20, 3 / 20⟩] := by
  have hlabel := label_descent config solver demand s hroom
    (solver.neverOverdue_of_none htimeout) hslack
  exact ⟨descent, positiveReference_of_label _ s descent _ referenceLine_canonical hlabel,
    Boundary.points_descent⟩

/-- Settings with just enough room: a state box between the ends of the line, and a step bound that
is its fall from sample to sample. -/
noncomputable def tight : TraceConfig ℝ where
  epsilon := Scalar.ofDecimal 1 2
  numPoints := 5
  rateBound? := some (Scalar.ofDecimal 15 2)
  stateMin := Scalar.ofDecimal 15 2
  stateMax := Scalar.ofDecimal 75 2
  beyondEnds := .extend

theorem hasRoom_tight : tight.HasRoom where
  valid := by
    rw [TraceConfig.validate_eq_ok_iff]
    norm_num [tight]
  min_le := by norm_num [tight]
  le_max := by norm_num [tight]
  rate := by
    rintro _ ⟨rfl⟩
    norm_num [tight]

theorem positiveReference_canonical_tight :
    tight.HasRoom ∧ (0 : ℝ) ≤ SolverConfig.default.slack ∧
      (SolverConfig.default : SolverConfig ℝ).timeoutMs? = none ∧
      ∃ b, (positiveReference (canonical tight .default .pointwise) (.new () false)).1 = .ok b ∧
        b.points = [⟨0, 3 / 4⟩, ⟨20, 3 / 20⟩] := by
  have hslack : (0 : ℝ) ≤ SolverConfig.default.slack := by simp [SolverConfig.default]
  exact ⟨hasRoom_tight, hslack, rfl, positiveReference_canonical tight .default .pointwise
    (.new () false) hasRoom_tight hslack rfl⟩

end Pipeline

end BoundaryAtlas
