import BoundaryAtlas.Proofs.Atlas.Reports
import BoundaryAtlas.Proofs.Labeler.Verdict

/-!
# Surveys with different demands

A rule may ask a trace to be above the lower curve at each sample, or to come to be above it. The
two rules have labels for the same boundaries, the first one is the stricter one, and on traces that
do not rise they agree.
-/

namespace BoundaryAtlas

variable {α : Type} [Scalar α] [Scalar.Comparable α]

/-! ## Verdicts -/

/-- Values do not rise along the trace. -/
def Trace.Falls (t : Trace α) : Prop := t.IsChain fun q r => r.y ≤ q.y

theorem Trace.Falls.le {t : Trace α} (h : Trace.Falls t) (i j : Nat) (hij : i < j)
    (hj : j < t.length) : t[j].y ≤ t[i].y := by
  let falls : Point α → Point α → Prop := fun q r => r.y ≤ q.y
  have : Trans falls falls falls := ⟨fun hqr hrs => Scalar.Comparable.trans hrs hqr⟩
  have hchain : t.IsChain falls := h
  exact List.pairwise_iff_getElem.mp hchain.pairwise i j (by omega) hj hij

namespace EnvelopeRule

variable (envelope : Envelope α) (t : Trace α)

theorem isNumber_of_belowUpper (o : EnvelopeRule α) (h : o.belowUpper t = true) :
    ∀ p ∈ t, Scalar.IsNumber p.y := by
  intro p hp
  obtain ⟨i, hi, rfl⟩ := List.getElem_of_mem hp
  obtain ⟨u, -, hu⟩ := (o.belowUpper_iff t).mp h i hi
  exact Scalar.Comparable.isNumber_left hu

theorem classify_eventually (h : (EnvelopeRule.mk envelope .pointwise).classify t = true) :
    (EnvelopeRule.mk envelope .eventually).classify t = true := by
  rw [classify, Bool.and_eq_true] at h ⊢
  obtain ⟨hupper, hlower⟩ := h
  refine ⟨hupper, ?_⟩
  rw [aboveLower_eventually_iff _ rfl t (isNumber_of_belowUpper t _ hupper)]
  rw [aboveLower_pointwise_iff _ rfl] at hlower
  intro i hi
  obtain ⟨l, hl, hle⟩ := hlower i hi
  exact ⟨l, hl, i, hi, le_refl i, hle⟩

theorem classify_of_falls (hfalls : Trace.Falls t) :
    (EnvelopeRule.mk envelope .pointwise).classify t =
      (EnvelopeRule.mk envelope .eventually).classify t := by
  rw [Bool.eq_iff_iff]
  refine ⟨classify_eventually envelope t, fun h => ?_⟩
  rw [classify, Bool.and_eq_true] at h ⊢
  obtain ⟨hupper, hlower⟩ := h
  refine ⟨hupper, ?_⟩
  rw [aboveLower_eventually_iff _ rfl t (isNumber_of_belowUpper t _ hupper)] at hlower
  rw [aboveLower_pointwise_iff _ rfl]
  intro i hi
  obtain ⟨l, hl, j, hj, hij, hle⟩ := hlower i hi
  refine ⟨l, hl, ?_⟩
  -- a later sample that reaches the lower curve is not above this one
  rcases Nat.eq_or_lt_of_le hij with rfl | hij
  · exact hle
  · exact Scalar.Comparable.trans hle (hfalls.le i j hij hj)

end EnvelopeRule

/-! ## Surveys -/

namespace Pipeline

/-- A pipeline that asks whether traces stay in an envelope. -/
def inEnvelope (synth : Synthesizer α) (envelope : Envelope α) (box : Box α) (inverts : Bool)
    (demand : LowerDemand) : Pipeline α Unit :=
  ⟨synth, (EnvelopeRule.mk envelope demand).labeler, box, inverts⟩

/-- **Demands.** Take two pipelines that differ only in what the lower curve of their envelope
demands. Their surveys have labels for the same boundaries. What is positive pointwise is positive
eventually, and the labels agree where the trace does not rise. -/
theorem survey_demands (synth : Synthesizer α) (envelope : Envelope α) (box : Box α)
    (inverts : Bool) (d : Grid α) (config : SurveyConfig)
    (hrun : (inEnvelope synth envelope box inverts .pointwise).preflight d = .ok ()) :
    ∃ pointwise eventually : Atlas α,
      (inEnvelope synth envelope box inverts .pointwise).Gives d config pointwise ∧
      (inEnvelope synth envelope box inverts .eventually).Gives d config eventually ∧
      (∀ b, (pointwise.get? b).isSome = (eventually.get? b).isSome) ∧
      (∀ b, pointwise.get? b = some true → eventually.get? b = some true) ∧
      ∀ b trace, (inEnvelope synth envelope box inverts .pointwise).traceOf d b = .ok trace →
        Trace.Falls trace → pointwise.get? b = eventually.get? b := by
  have hpure : ∀ demand, (inEnvelope synth envelope box inverts demand).labeler.IsPure :=
    fun _ _ _ _ => rfl
  refine ⟨_, _, gives_of_isPure _ (hpure .pointwise) d config hrun (.new () false),
    gives_of_isPure _ (hpure .eventually) d config hrun (.new () false), ?_, ?_, ?_⟩
  · intro b
    rw [Bool.eq_iff_iff, isSome_ofOutcomes_labelGrid, isSome_ofOutcomes_labelGrid]
    exact Iff.rfl
  · intro b
    simp only [get?_ofOutcomes_labelGrid]
    rintro ⟨⟨trace, htrace, hverdict⟩, hlisted⟩
    exact ⟨⟨trace, htrace, EnvelopeRule.classify_eventually envelope trace hverdict⟩, hlisted⟩
  · intro b trace htrace hfalls
    have hverdict := EnvelopeRule.classify_of_falls envelope trace hfalls
    refine Option.ext fun label => ?_
    simp only [get?_ofOutcomes_labelGrid]
    refine and_congr_left fun _ => ?_
    constructor
    · rintro ⟨_, htrace', hlabel⟩
      obtain rfl := Except.ok.inj (htrace.symm.trans htrace')
      exact ⟨trace, htrace, hverdict.symm.trans hlabel⟩
    · rintro ⟨_, htrace', hlabel⟩
      obtain rfl := Except.ok.inj (htrace.symm.trans htrace')
      exact ⟨trace, htrace, hverdict.trans hlabel⟩

/-- The upper half of a cell. -/
def upperHalf : Envelope ℚ :=
  ⟨⟨[⟨0, 1⟩, ⟨1, 1⟩], by simp⟩, ⟨[⟨0, 1 / 2⟩, ⟨1, 1 / 2⟩], by simp⟩⟩

/-- A pipeline on a cell that asks whether traces stay in its upper half. -/
def inUpperHalf (demand : LowerDemand) : Pipeline ℚ Unit :=
  inEnvelope (.chain ⟨1 / 10, 2, none, 0, 1, .reject⟩ ⟨none, 0, fun _ => 0⟩) upperHalf
    ⟨⟨0, 1⟩, ⟨0, 1⟩⟩ false demand

/-- The rising diagonal comes to the upper half. The falling one leaves it, under both demands. -/
theorem survey_demands_upperHalf :
    (inUpperHalf .pointwise).preflight cell = .ok () ∧
    ∃ pointwise eventually : Atlas ℚ,
      (inUpperHalf .pointwise).Gives cell ⟨0, none⟩ pointwise ∧
      (inUpperHalf .eventually).Gives cell ⟨0, none⟩ eventually ∧
      pointwise.get? ⟨[⟨0, 1⟩, ⟨1, 1⟩]⟩ = some true ∧
      eventually.get? ⟨[⟨0, 1⟩, ⟨1, 1⟩]⟩ = some true ∧
      pointwise.get? ⟨[⟨0, 0⟩, ⟨1, 1⟩]⟩ = some false ∧
      eventually.get? ⟨[⟨0, 0⟩, ⟨1, 1⟩]⟩ = some true ∧
      pointwise.get? ⟨[⟨0, 1⟩, ⟨1, 0⟩]⟩ = some false ∧
      eventually.get? ⟨[⟨0, 1⟩, ⟨1, 0⟩]⟩ = some false := by
  have hrun : (inUpperHalf .pointwise).preflight cell = .ok () := by decide +kernel
  have hpointwise : ((inUpperHalf .pointwise).survey cell ⟨0, none⟩ .never (.new () false)).1.map
      (fun m => (m.get? ⟨[⟨0, 1⟩, ⟨1, 1⟩]⟩, m.get? ⟨[⟨0, 0⟩, ⟨1, 1⟩]⟩,
        m.get? ⟨[⟨0, 1⟩, ⟨1, 0⟩]⟩)) = .ok (some true, some false, some false) := by
    decide +kernel
  have heventually : ((inUpperHalf .eventually).survey cell ⟨0, none⟩ .never (.new () false)).1.map
      (fun m => m.get? ⟨[⟨0, 0⟩, ⟨1, 1⟩]⟩) = .ok (some true) := by decide +kernel
  have htrace : (inUpperHalf .pointwise).traceOf cell ⟨[⟨0, 1⟩, ⟨1, 0⟩]⟩ =
      .ok [⟨0, 1⟩, ⟨1, 0⟩] := by decide +kernel
  have hfalls : Trace.Falls [(⟨0, 1⟩ : Point ℚ), ⟨1, 0⟩] := by simp [Trace.Falls]
  obtain ⟨pointwise, eventually, hgives, hgives', -, hpositive, hequal⟩ :=
    survey_demands _ upperHalf _ false cell ⟨0, none⟩ hrun
  have hsurvey : ((inUpperHalf .pointwise).survey cell ⟨0, none⟩ .never (.new () false)).1 =
      .ok pointwise := hgives.1 _
  have hsurvey' : ((inUpperHalf .eventually).survey cell ⟨0, none⟩ .never (.new () false)).1 =
      .ok eventually := hgives'.1 _
  rw [hsurvey] at hpointwise
  rw [hsurvey'] at heventually
  obtain ⟨htop, hrising, hfalling⟩ : pointwise.get? ⟨[⟨0, 1⟩, ⟨1, 1⟩]⟩ = some true ∧
      pointwise.get? ⟨[⟨0, 0⟩, ⟨1, 1⟩]⟩ = some false ∧
      pointwise.get? ⟨[⟨0, 1⟩, ⟨1, 0⟩]⟩ = some false := by
    simpa [Except.map] using hpointwise
  exact ⟨hrun, pointwise, eventually, hgives, hgives', htop, hpositive _ htop, hrising,
    Except.ok.inj heventually, hfalling, (hequal _ _ htrace hfalls).symm.trans hfalling⟩

end Pipeline

end BoundaryAtlas
