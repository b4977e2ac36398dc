import BoundaryAtlas.Proofs.Boundary.Reflection
import BoundaryAtlas.Proofs.Trace.Nearest
import BoundaryAtlas.Proofs.Trace.Targets

/-!
# Traces after half a turn

States that fit to a boundary fit to the turned boundary when they are reflected and their order is
reversed. So there is a trace for one of the two exactly if there is one for the other, although the
solver sweeps both in the same direction and its two traces need not be reflections of each other.
-/

namespace BoundaryAtlas

variable {α : Type} [ExactScalar α]

/-! ## Boundaries without jumps -/

namespace Boundary

theorem isAccepted_of_increasing (b : Boundary α)
    (hx : b.points.Pairwise fun p q => p.x < q.x) : b.IsAccepted :=
  ⟨fun p _ => ExactScalar.isFinite_eq p.x, hx.imp le_of_lt⟩

theorem valueAt_invert_point (b : Boundary α) (hx : b.points.Pairwise fun p q => p.x < q.x)
    (box : Box α) (k : ℕ) (h : k < b.points.length) :
    (b.invert box).valueAt (box.x.lo + box.x.hi - b.points[k].x) =
      .ok (box.y.lo + box.y.hi - b.valueInside b.points[k].x) := by
  have hb := b.isAccepted_of_increasing hx
  have hlt := List.pairwise_iff_getElem.mp hx
  have hvalue := hb.valueAt_column k h fun j hj hkj => hlt k j h hj hkj
  rw [b.valueAt_of_mem _ ⟨hb.isMonotone.first_le k h, hb.isMonotone.le_last k h⟩] at hvalue
  rw [Except.ok.inj hvalue]
  exact hb.valueAt_invert_column box k h fun j hj => hlt j k (by omega) h hj

theorem valueInside_invert (b : Boundary α) (hx : b.points.Pairwise fun p q => p.x < q.x)
    (box : Box α) (t : α) (ht : box.x.lo + box.x.hi - t ∈ b.domain) :
    (b.invert box).valueInside t =
      box.y.lo + box.y.hi - b.valueInside (box.x.lo + box.x.hi - t) := by
  have hb := b.isAccepted_of_increasing hx
  obtain ⟨hfirst, hlast⟩ := (b.mem_domain_iff _).mp ht
  have hturned : t ∈ (b.invert box).domain := by
    rw [b.domain_invert box]
    exact ⟨by rw [sub_le_comm]; exact hlast, by rw [le_sub_comm]; exact hfirst⟩
  apply Except.ok.inj (ε := Fault α)
  rw [← (b.invert box).valueAt_of_mem t hturned]
  have hpoint : ∀ k (h : k < b.points.length), b.points[k].x = box.x.lo + box.x.hi - t →
      (b.invert box).valueAt t =
        .ok (box.y.lo + box.y.hi - b.valueInside (box.x.lo + box.x.hi - t)) := by
    intro k h hk
    have hvalue := b.valueAt_invert_point hx box k h
    rwa [hk, sub_sub_cancel] at hvalue
  rcases hlast.eq_or_lt with hend | hbefore
  · have hlength := List.length_pos_iff.mpr b.nonempty
    apply hpoint (b.points.length - 1) (by omega)
    rw [← b.last_eq_getElem (b.points.length - 1) (by omega) (by omega), ← hend]
  · obtain ⟨k, h, hleft, hright⟩ := hb.exists_between _ hfirst hbefore
    rcases hleft.eq_or_lt with hat | hpast
    · exact hpoint k (by omega) hat
    · exact hb.valueAt_invert_between box k (by omega) h t hpast hright

end Boundary

/-! ## Solutions from the other end -/

/-- The interval of the reflected numbers. -/
def Interval.mirror (c : α) (r : Interval α) : Interval α := ⟨c - r.hi, c - r.lo⟩

theorem Interval.mem_mirror_iff (c : α) (r : Interval α) (x : α) :
    c - x ∈ r.mirror c ↔ x ∈ r := by
  rw [mem_iff, mem_iff]
  simp only [mirror, sub_le_sub_iff_left]
  exact and_comm

/-- The sample for the reflected target. -/
def TubeSample.mirror (c : α) (s : TubeSample α) : TubeSample α :=
  ⟨c - s.target, s.range.mirror c⟩

namespace Chain

theorem StepsTo.mirror {rate? : Option α} {x y : α} (c : α) (h : StepsTo rate? x y) :
    StepsTo rate? (c - x) (c - y) := by
  intro rate hrate
  rw [sub_sub_sub_cancel_left, abs_sub_comm]
  exact h rate hrate

theorem Fits.mirror {rate? : Option α} {samples : List (TubeSample α)} {xs : List α} (c : α)
    (h : Fits rate? samples xs) :
    Fits rate? (samples.reverse.map (TubeSample.mirror c)) (xs.reverse.map (c - ·)) where
  inside := by
    rw [List.forall₂_map_left_iff, List.forall₂_map_right_iff, List.forall₂_reverse_iff]
    exact h.inside.imp fun s x hx => (s.range.mem_mirror_iff c x).mpr hx
  steps := by
    rw [List.isChain_map, List.isChain_reverse]
    exact h.steps.imp fun x y hxy => (hxy.mirror c).symm

theorem mirror_mirror (c : α) (samples : List (TubeSample α)) :
    ((samples.reverse.map (TubeSample.mirror c)).reverse.map (TubeSample.mirror c)) = samples := by
  have hback : TubeSample.mirror c ∘ TubeSample.mirror c = id := by
    funext s
    simp [TubeSample.mirror, Interval.mirror]
  rw [← List.map_reverse, List.reverse_reverse, List.map_map, hback, List.map_id]

theorem solvable_mirror_iff (rate? : Option α) (c : α) (samples : List (TubeSample α)) :
    Solvable rate? (samples.reverse.map (TubeSample.mirror c)) ↔ Solvable rate? samples := by
  constructor
  · rintro ⟨xs, hxs⟩
    rw [← mirror_mirror c samples]
    exact ⟨_, hxs.mirror c⟩
  · rintro ⟨xs, hxs⟩
    exact ⟨_, hxs.mirror c⟩

end Chain

/-! ## Samples from the other end -/

theorem TraceConfig.times_reverse (c : TraceConfig α) (hpoints : 2 ≤ c.numPoints) (horizon : α) :
    (c.times horizon).reverse = (c.times horizon).map (horizon - ·) := by
  have hlength := c.length_times horizon
  refine List.ext_getElem (by simp) fun i hi _ => ?_
  rw [List.length_reverse, hlength] at hi
  rw [List.getElem_reverse, List.getElem_map, c.getElem_times hpoints, c.getElem_times hpoints,
    hlength, Nat.cast_sub (by omega), Nat.cast_sub (by omega), Nat.cast_one]
  have hlast : (c.numPoints : α) - 1 ≠ 0 := by
    rw [sub_ne_zero, Nat.cast_ne_one]
    omega
  field_simp

theorem TraceConstraints.tube_mirror (c : TraceConfig α) (v : α) :
    tube c (c.stateMin + c.stateMax - v) = (tube c v).mirror (c.stateMin + c.stateMax) := by
  simp only [tube, TubeSample.mirror, Interval.mirror, ExactScalar.larger_eq,
    ExactScalar.smaller_eq, ← max_sub_sub_left, ← min_sub_sub_left, add_sub_cancel_right,
    add_sub_cancel_left]
  rw [sub_add_eq_sub_sub, sub_sub_eq_add_sub, sub_add_eq_add_sub]

/-! ## Traces -/

/-- The box of the states, over the time from zero to the horizon. -/
def TraceConfig.box (c : TraceConfig α) (horizon : α) : Box α :=
  ⟨⟨0, horizon⟩, ⟨c.stateMin, c.stateMax⟩⟩

/-- The samples for a boundary that runs from zero to the horizon. -/
def TraceConstraints.samplesOf (c : TraceConfig α) (b : Boundary α) (horizon : α) :
    List (TubeSample α) :=
  ((c.times horizon).map b.valueInside).map (tube c)

theorem TraceConstraints.samplesOf_invert (c : TraceConfig α) (hpoints : 2 ≤ c.numPoints)
    (b : Boundary α) (hx : b.points.Pairwise fun p q => p.x < q.x) (horizon : α)
    (hhorizon : 0 ≤ horizon) (hdomain : b.domain = ⟨0, horizon⟩) :
    samplesOf c (b.invert (c.box horizon)) horizon =
      (samplesOf c b horizon).reverse.map (TubeSample.mirror (c.stateMin + c.stateMax)) := by
  unfold samplesOf
  rw [← List.map_reverse, ← List.map_reverse, c.times_reverse hpoints]
  simp only [List.map_map]
  refine List.map_congr_left fun t ht => ?_
  have hwidth : (c.box horizon).x.lo + (c.box horizon).x.hi - t = horizon - t :=
    congrArg (· - t) (zero_add horizon)
  have hreflected : (c.box horizon).x.lo + (c.box horizon).x.hi - t ∈ b.domain := by
    rw [hdomain]
    exact (c.box horizon).x.reflect_mem t (c.mem_of_mem_times hpoints horizon t hhorizon ht)
  simp only [Function.comp_apply]
  rw [b.valueInside_invert hx _ t hreflected, hwidth]
  exact tube_mirror c (b.valueInside (horizon - t))

theorem Synthesizer.exists_trace_iff (config : TraceConfig α) (solver : SolverConfig α)
    (hclock : solver.NeverOverdue) (hslack : solver.slack = 0) (hconfig : config.validate = .ok ())
    (b : Boundary α) (horizon : α) (hhorizon : 0 < horizon) (hdomain : b.domain = ⟨0, horizon⟩) :
    (∃ trace, (chain config solver).synthesize b horizon = .ok trace) ↔
      Chain.Solvable config.rateBound? (TraceConstraints.samplesOf config b horizon) := by
  obtain ⟨-, -, hrate, -⟩ := config.validate_eq_ok_iff.mp hconfig
  rw [(chain config solver).synthesize_of_domain b horizon hconfig hhorizon hdomain]
  constructor
  · rintro ⟨trace, h⟩
    obtain ⟨sol, hsol, -⟩ := SolverAnswer.toTrace_eq_ok _ _ trace h
    exact ⟨sol.states, Chain.solve_fits _ solver hslack hrate sol hsol⟩
  · intro h
    obtain ⟨sol, hsol⟩ := Chain.solve_of_solvable
      (.around config ((config.times horizon).map b.valueInside)) solver hclock hslack.ge h
    exact ⟨_, congrArg (SolverAnswer.toTrace _) hsol⟩

/-- **Half turns keep feasibility.** Without slack there is a trace for a boundary without jumps
over the time from zero to the horizon exactly if there is one after half a turn in the box of the
states. -/
theorem synthesize_half_turn_iff (config : TraceConfig α) (solver : SolverConfig α)
    (hclock : solver.NeverOverdue) (hslack : solver.slack = 0) (hconfig : config.validate = .ok ())
    (b : Boundary α) (hx : b.points.Pairwise fun p q => p.x < q.x) (horizon : α)
    (hhorizon : 0 < horizon) (hdomain : b.domain = ⟨0, horizon⟩) :
    (∃ trace, (Synthesizer.chain config solver).synthesize b horizon = .ok trace) ↔
      ∃ trace, (Synthesizer.chain config solver).synthesize
        (b.invert ⟨⟨0, horizon⟩, ⟨config.stateMin, config.stateMax⟩⟩) horizon = .ok trace := by
  obtain ⟨-, hpoints, -⟩ := config.validate_eq_ok_iff.mp hconfig
  have hturned : (b.invert (config.box horizon)).domain = ⟨0, horizon⟩ := by
    rw [b.domain_invert, hdomain]
    simp [TraceConfig.box]
  rw [Synthesizer.exists_trace_iff config solver hclock hslack hconfig b horizon hhorizon hdomain]
  change _ ↔ ∃ trace, (Synthesizer.chain config solver).synthesize
    (b.invert (config.box horizon)) horizon = .ok trace
  rw [Synthesizer.exists_trace_iff config solver hclock hslack hconfig _ horizon hhorizon hturned,
    TraceConstraints.samplesOf_invert config hpoints b hx horizon hhorizon.le hdomain,
    Chain.solvable_mirror_iff]

/-- Three samples, with steps that are shorter than the way from one end of the box to the other. -/
def shortSteps : TraceConfig ℚ := ⟨1 / 4, 3, some (5 / 8), 0, 1, .reject⟩

def spike : Boundary ℚ := ⟨[⟨0, 1 / 4⟩, ⟨1 / 2, 1⟩, ⟨1, 0⟩], by decide⟩

/-- The trace of the turned boundary is another one than the reflected trace. -/
theorem synthesize_half_turn_iff_spike :
    Chain.strict.NeverOverdue ∧ Chain.strict.slack = 0 ∧ shortSteps.validate = .ok () ∧
    spike.points.Pairwise (fun p q => p.x < q.x) ∧ spike.domain = ⟨0, 1⟩ ∧
    (Synthesizer.chain shortSteps Chain.strict).synthesize spike 1 =
      .ok [⟨0, 1 / 4⟩, ⟨1 / 2, 3 / 4⟩, ⟨1, 1 / 8⟩] ∧
    ∃ trace, (Synthesizer.chain shortSteps Chain.strict).synthesize
        (spike.invert ⟨⟨0, 1⟩, ⟨0, 1⟩⟩) 1 = .ok trace ∧
      trace = [⟨0, 3 / 4⟩, ⟨1 / 2, 1 / 8⟩, ⟨1, 3 / 4⟩] := by
  have hclock : Chain.strict.NeverOverdue := SolverConfig.neverOverdue_of_none _ rfl
  have hconfig : shortSteps.validate = .ok () := by decide +kernel
  have hx : spike.points.Pairwise fun p q => p.x < q.x := by decide +kernel
  have hdomain : spike.domain = ⟨0, 1⟩ := by decide +kernel
  have htrace : (Synthesizer.chain shortSteps Chain.strict).synthesize spike 1 =
      .ok [⟨0, 1 / 4⟩, ⟨1 / 2, 3 / 4⟩, ⟨1, 1 / 8⟩] := by decide +kernel
  obtain ⟨trace, hturned⟩ := (synthesize_half_turn_iff shortSteps Chain.strict hclock rfl hconfig
    spike hx 1 zero_lt_one hdomain).mp ⟨_, htrace⟩
  have hstates : (Synthesizer.chain shortSteps Chain.strict).synthesize
      (spike.invert ⟨⟨0, 1⟩, ⟨0, 1⟩⟩) 1 =
        .ok [⟨0, 3 / 4⟩, ⟨1 / 2, 1 / 8⟩, ⟨1, 3 / 4⟩] := by decide +kernel
  exact ⟨hclock, rfl, hconfig, hx, hdomain, htrace, trace, hturned,
    Except.ok.inj (hturned.symm.trans hstates)⟩

end BoundaryAtlas
