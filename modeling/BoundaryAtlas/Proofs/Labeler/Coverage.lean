import BoundaryAtlas.Proofs.Envelope.Curve
import BoundaryAtlas.Proofs.Labeler.Verdict
import BoundaryAtlas.Proofs.Pipeline.Labeling
import BoundaryAtlas.Proofs.Trace.Targets

/-!
# Verdicts rest on values

A curve has a value at each time of its domain. The checks before a run see to it that the domains
cover the sample times, so a negative verdict names a sample that is on the wrong side of a curve.
-/

namespace BoundaryAtlas

variable {α σ : Type}

/-! ## Covered times -/

variable [ExactScalar α]

namespace Envelope

theorem curveCovers_eq_ok_iff (side : Side) (c : Curve α) (start stop : α) :
    curveCovers side c start stop = .ok () ↔ c.domain.lo ≤ start ∧ stop ≤ c.domain.hi := by
  unfold curveCovers
  split
  · rename_i h
    exact iff_of_false nofun fun hcovers => by rcases h with h | h <;> linarith
  · rename_i h
    exact iff_of_true rfl ⟨not_lt.mp fun hlo => h (.inl hlo), not_lt.mp fun hhi => h (.inr hhi)⟩

theorem requireCover_eq_ok_iff (e : Envelope α) (start stop : α) :
    e.requireCover start stop = .ok () ↔
      (e.upper.domain.lo ≤ start ∧ stop ≤ e.upper.domain.hi) ∧
        e.lower.domain.lo ≤ start ∧ stop ≤ e.lower.domain.hi := by
  rw [← curveCovers_eq_ok_iff .upper, ← curveCovers_eq_ok_iff .lower]
  unfold requireCover
  cases curveCovers .upper e.upper start stop with
  | error f => exact iff_of_false nofun nofun
  | ok u => simp [bind, Except.bind]

theorem exists_eval?_of_requireCover (e : Envelope α) (start stop x : α)
    (h : e.requireCover start stop = .ok ()) (hx : x ∈ (⟨start, stop⟩ : Interval α)) :
    (∃ u, e.upper.eval? x = some u) ∧ ∃ l, e.lower.eval? x = some l := by
  obtain ⟨⟨hupper, hupper'⟩, hlower, hlower'⟩ := (e.requireCover_eq_ok_iff start stop).mp h
  rw [Curve.exists_eval?_iff, Curve.exists_eval?_iff]
  exact ⟨⟨hupper.trans hx.1, hx.2.trans hupper'⟩, hlower.trans hx.1, hx.2.trans hlower'⟩

end Envelope

/-! ## Negative verdicts -/

namespace EnvelopeRule

/-- A sample lies above the upper curve. -/
def Exceeds (o : EnvelopeRule α) (t : Trace α) : Prop :=
  ∃ i, ∃ hi : i < t.length, ∃ u, o.envelope.upper.eval? t[i].x = some u ∧ u < t[i].y

/-- The lower curve has a value at a sample that the trace does not reach: not at that sample, or
never from that sample on, as the rule demands. -/
def FallsShort (o : EnvelopeRule α) (t : Trace α) : Prop :=
  ∃ i, ∃ hi : i < t.length, ∃ l, o.envelope.lower.eval? t[i].x = some l ∧
    match o.demand with
    | .pointwise => t[i].y < l
    | .eventually => ∀ j (hj : j < t.length), i ≤ j → t[j].y < l

theorem belowUpper_eq_false_iff (o : EnvelopeRule α) (t : Trace α)
    (hvalue : ∀ q ∈ t, ∃ u, o.envelope.upper.eval? q.x = some u) :
    o.belowUpper t = false ↔ o.Exceeds t := by
  rw [← Bool.not_eq_true, belowUpper_iff, Exceeds]
  push Not
  refine exists₂_congr fun i hi => ?_
  obtain ⟨u, hu⟩ := hvalue t[i] (List.getElem_mem hi)
  simp [hu]

theorem aboveLower_eq_false_iff (o : EnvelopeRule α) (t : Trace α)
    (hvalue : ∀ q ∈ t, ∃ l, o.envelope.lower.eval? q.x = some l) :
    o.aboveLower t = false ↔ o.FallsShort t := by
  rw [← Bool.not_eq_true, FallsShort]
  cases hdemand : o.demand with
  | pointwise =>
    rw [aboveLower_pointwise_iff o hdemand]
    push Not
    refine exists₂_congr fun i hi => ?_
    obtain ⟨l, hl⟩ := hvalue t[i] (List.getElem_mem hi)
    simp [hl]
  | eventually =>
    rw [aboveLower_eventually_iff o hdemand t fun q _ => by simp [Scalar.IsNumber]]
    push Not
    refine exists₂_congr fun i hi => ?_
    obtain ⟨l, hl⟩ := hvalue t[i] (List.getElem_mem hi)
    simp [hl]

theorem classify_eq_false_iff (o : EnvelopeRule α) (t : Trace α)
    (hvalue : ∀ q ∈ t, (∃ u, o.envelope.upper.eval? q.x = some u) ∧
      ∃ l, o.envelope.lower.eval? q.x = some l) :
    o.classify t = false ↔ o.Exceeds t ∨ o.FallsShort t := by
  rw [classify, Bool.and_eq_false_iff, belowUpper_eq_false_iff o t fun q hq => (hvalue q hq).1,
    aboveLower_eq_false_iff o t fun q hq => (hvalue q hq).2]

end EnvelopeRule

/-! ## Sample times -/

theorem Synthesizer.x_mem_of_synthesize (s : Synthesizer α) (b : Boundary α) (horizon : α)
    (trace : Trace α) (h : s.synthesize b horizon = .ok trace) :
    ∀ q ∈ trace, q.x ∈ (⟨0, horizon⟩ : Interval α) := by
  obtain ⟨hconfig, hok, targets, -, sol, -, rfl⟩ :=
    (s.synthesize_eq_ok_iff b horizon trace).mp h
  obtain ⟨-, hpoints, -⟩ := s.config.validate_eq_ok_iff.mp hconfig
  have hhorizon : 0 < horizon := by simpa [horizonOk] using hok
  intro q hq
  rw [← List.map_uncurry_zip_eq_zipWith] at hq
  obtain ⟨⟨t, y⟩, hty, rfl⟩ := List.mem_map.mp hq
  exact s.config.mem_of_mem_times hpoints horizon t hhorizon.le (List.of_mem_zip hty).1

/-! ## The pipeline -/

namespace Pipeline

/-- **Coverage.** If a pipeline with an envelope passes its checks and gives a boundary a trace and a
verdict, then both curves have values at all samples of the trace. So the verdict is negative exactly
if some sample lies above the upper curve, or the trace falls short of the lower one. -/
theorem label_rests_on_values (p : Pipeline α Unit) (rule : EnvelopeRule α)
    (hrule : p.labeler = rule.labeler) (hvalid : p.validate = .ok ()) (b : Boundary α)
    (s : Session α Unit) (trace : Trace α) (verdict : Bool)
    (h : (p.label b s).1 = .ok (trace, verdict)) :
    (∀ q ∈ trace, (∃ u, rule.envelope.upper.eval? q.x = some u) ∧
      ∃ l, rule.envelope.lower.eval? q.x = some l) ∧
    (verdict = false ↔ rule.Exceeds trace ∨ rule.FallsShort trace) := by
  obtain ⟨_, -, hdomain⟩ := exists_of_bind_eq_ok hvalid
  rw [hrule, ExactScalar.ofNat_eq, Nat.cast_zero] at hdomain
  rw [label_fst, hrule] at h
  cases hsynth : p.synth.synthesize (p.target b) p.horizon with
  | error f => simp [hsynth, Except.map] at h
  | ok points =>
    simp only [hsynth, Except.map, Except.ok.injEq, Prod.mk.injEq] at h
    obtain ⟨rfl, rfl⟩ := h
    have hvalue := fun q hq =>
      rule.envelope.exists_eval?_of_requireCover 0 p.horizon q.x hdomain
        (p.synth.x_mem_of_synthesize _ _ points hsynth q hq)
    exact ⟨hvalue, rule.classify_eq_false_iff points hvalue⟩

/-- The reference envelope over its box, with boundaries turned before they are labeled. -/
def turnedReference : Pipeline ℚ Unit :=
  ⟨.chain ⟨1 / 100, 5, none, 0, 1, .reject⟩ .default,
    (⟨.canonical, .eventually⟩ : EnvelopeRule ℚ).labeler, .canonical, true⟩

/-- The trace of the falling reference line, turned. -/
def turnedLine : Trace ℚ :=
  [⟨0, 17 / 20⟩, ⟨5, 7 / 10⟩, ⟨10, 11 / 20⟩, ⟨15, 2 / 5⟩, ⟨20, 1 / 4⟩]

/-- The turned line never falls short of the lower curve, but it ends above the upper one. -/
theorem label_rests_on_values_turned :
    turnedReference.validate = .ok () ∧
    (turnedReference.label ⟨[⟨0, 3 / 4⟩, ⟨20, 3 / 20⟩], by simp⟩ (.new () false)).1 =
      .ok (turnedLine, false) ∧
    EnvelopeRule.Exceeds ⟨.canonical, .eventually⟩ turnedLine := by
  have hvalid : turnedReference.validate = .ok () := by decide +kernel
  have hlabel : (turnedReference.label ⟨[⟨0, 3 / 4⟩, ⟨20, 3 / 20⟩], by simp⟩ (.new () false)).1 =
      .ok (turnedLine, false) := by decide +kernel
  have habove : EnvelopeRule.aboveLower ⟨.canonical, .eventually⟩ turnedLine = true := by
    decide +kernel
  obtain ⟨hvalue, hnegative⟩ := label_rests_on_values turnedReference _ rfl hvalid _ _ _ _ hlabel
  refine ⟨hvalid, hlabel, (hnegative.mp rfl).resolve_right fun hshort => ?_⟩
  have hbelow := (EnvelopeRule.aboveLower_eq_false_iff _ _ fun q hq => (hvalue q hq).2).mpr hshort
  exact Bool.false_ne_true (hbelow.symm.trans habove)

end Pipeline

end BoundaryAtlas
