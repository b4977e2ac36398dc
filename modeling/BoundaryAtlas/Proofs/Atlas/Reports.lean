import BoundaryAtlas.Proofs.Atlas.Surfacing

/-!
# One outcome for each boundary

Workers bring one outcome for each boundary of a pass, and no boundary belongs to two passes. So an
atlas is always one of fixed outcomes, whatever the labeler and the solver answered on the way.
-/

namespace BoundaryAtlas

variable {α σ : Type}

theorem Search.nodup_toList_new (d : Grid α) (n : Nat) : (new d n).toList.Nodup := by
  refine (toList_new_sorted d n).imp ?_
  rintro a _ h rfl
  exact GridBoundary.cmp_lt_irrefl a h

/-- The outcomes of a pass: one for each boundary, in any order, and records of these boundaries. -/
structure IsReport (d : Grid α) (kinks : Nat) (outcomes : List (Outcome α)) : Prop where
  boundaries : (outcomes.map Outcome.boundary).Perm (Search.new d kinks).toList
  records : ∀ o ∈ outcomes, ∀ r, o.record? = some r → r = ⟨o.boundary, o.boundary.kinks, r.label⟩

/-! ## What reports say about a boundary -/

namespace Atlas

/-- The outcome that reports have for a boundary. -/
def reported (reports : Nat → List (Outcome α)) (b : GridBoundary) : Outcome α :=
  match (reports b.kinks).find? (fun o => o.boundary = b) with
  | some (.labeled r) => .labeled ⟨b, b.kinks, r.label⟩
  | some (.failed _ fault) => .failed b fault
  | none => .failed b .cancelled

theorem boundary_reported (reports : Nat → List (Outcome α)) (b : GridBoundary) :
    (reported reports b).boundary = b := by
  unfold reported
  split <;> rfl

theorem record?_reported (reports : Nat → List (Outcome α)) (b : GridBoundary) (r : Record)
    (h : (reported reports b).record? = some r) : r = ⟨b, b.kinks, r.label⟩ := by
  unfold reported at h
  split at h <;> cases h
  rfl

end Atlas

namespace IsReport

variable {d : Grid α} {kinks : Nat} {outcomes : List (Outcome α)}

theorem boundary_mem (h : IsReport d kinks outcomes) {o : Outcome α} (ho : o ∈ outcomes) :
    o.boundary ∈ (Search.new d kinks).toList :=
  h.boundaries.subset (List.mem_map_of_mem ho)

theorem kinks_eq (h : IsReport d kinks outcomes) {o : Outcome α} (ho : o ∈ outcomes) :
    o.boundary.kinks = kinks :=
  ((Search.mem_toList_new d kinks _).mp (h.boundary_mem ho)).kinks_eq

theorem eq_of_boundary_eq (h : IsReport d kinks outcomes) {o o' : Outcome α} (ho : o ∈ outcomes)
    (ho' : o' ∈ outcomes) (hb : o.boundary = o'.boundary) : o = o' :=
  List.inj_on_of_nodup_map (h.boundaries.nodup_iff.mpr (Search.nodup_toList_new d kinks)) ho ho' hb

theorem reported_eq {reports : Nat → List (Outcome α)} (h : IsReport d kinks (reports kinks))
    {o : Outcome α} (ho : o ∈ reports kinks) : Atlas.reported reports o.boundary = o := by
  unfold Atlas.reported
  rw [h.kinks_eq ho]
  cases hfind : (reports kinks).find? (fun o' => o'.boundary = o.boundary) with
  | none => exact absurd (List.find?_eq_none.mp hfind o ho) (by simp)
  | some o' =>
    have hb : o'.boundary = o.boundary := by simpa using List.find?_some hfind
    obtain rfl : o' = o := h.eq_of_boundary_eq (List.mem_of_find?_eq_some hfind) ho hb
    cases o' with
    | failed b fault => rfl
    | labeled r =>
      have hr : r = ⟨r.boundary, r.boundary.kinks, r.label⟩ := h.records _ ho r rfl
      rw [hr]
      simp only [Outcome.boundary]
      congr 2
      exact (h.kinks_eq ho).symm

theorem perm {reports : Nat → List (Outcome α)} (h : IsReport d kinks (reports kinks)) :
    (reports kinks).Perm ((Search.new d kinks).toList.map (Atlas.reported reports)) := by
  have hmap : ((reports kinks).map Outcome.boundary).map (Atlas.reported reports) =
      reports kinks := by
    rw [List.map_map]
    exact (List.map_congr_left fun o ho => h.reported_eq ho).trans (List.map_id _)
  rw [← hmap]
  exact h.boundaries.map _

end IsReport

namespace Atlas

theorem addPasses_eq_ofOutcomes (d : Grid α) (config : SurveyConfig)
    (reports : Nat → List (Outcome α))
    (h : ∀ k ≤ Pipeline.lastPass d config, IsReport d k (reports k)) :
    (empty d config.maxKinks).addPasses reports (Pipeline.lastPass d config + 1) 0 =
      ofOutcomes d config (reported reports) := by
  apply addPasses_congr
  intro k hk m
  exact addPass_perm _ (boundary_reported reports) k m _ _ (h k (by omega)).perm

theorem get?_addPasses_eq_some_iff (d : Grid α) (config : SurveyConfig)
    (reports : Nat → List (Outcome α))
    (h : ∀ k ≤ Pipeline.lastPass d config, IsReport d k (reports k)) (b : GridBoundary)
    (label : Bool) :
    ((empty d config.maxKinks).addPasses reports (Pipeline.lastPass d config + 1) 0).get? b =
        some label ↔
      ∃ k ≤ Pipeline.lastPass d config, ∃ o ∈ reports k, o.boundary = b ∧
        o.label? = some label := by
  rw [addPasses_eq_ofOutcomes d config reports h,
    get?_ofOutcomes d config _ (boundary_reported reports)]
  constructor
  · rintro ⟨hlabel, k, hk, hb⟩
    obtain ⟨o, ho, rfl⟩ := List.mem_map.mp ((h k hk).boundaries.symm.subset hb)
    rw [(h k hk).reported_eq ho] at hlabel
    exact ⟨k, hk, o, ho, rfl, hlabel⟩
  · rintro ⟨k, hk, o, ho, rfl, hlabel⟩
    rw [(h k hk).reported_eq ho]
    exact ⟨hlabel, k, hk, (h k hk).boundary_mem ho⟩

end Atlas

/-! ## Reports of a pipeline -/

namespace Pipeline

variable [Scalar α]

/-- The pipeline with another solver. -/
def solvedBy (p : Pipeline α σ) (solve : TraceConstraints α → SolverAnswer α) : Pipeline α σ :=
  { p with synth := ⟨p.synth.config, solve⟩ }

/-- Outcomes that workers may bring for a pass if the solver answers each boundary in a way of its
own, as one does that may run out of time. -/
def CollectsTimed (p : Pipeline α σ) (d : Grid α) (kinks : Nat) (outcomes : List (Outcome α)) :
    Prop :=
  ∃ order, order.Perm (Search.new d kinks).toList ∧
    List.Forall₂ (fun b outcome => ∃ solve s, outcome = ((p.solvedBy solve).labelGrid d b s).1)
      order outcomes

/-- Atlases that a survey may give if the solver answers each boundary in a way of its own. -/
def MayGiveTimed (p : Pipeline α σ) (d : Grid α) (config : SurveyConfig) (m : Atlas α) : Prop :=
  ∃ reports : Nat → List (Outcome α),
    (∀ k ≤ lastPass d config, p.CollectsTimed d k (reports k)) ∧
    m = (Atlas.empty d config.maxKinks).addPasses reports (lastPass d config + 1) 0

theorem Collects.timed {p : Pipeline α σ} {d : Grid α} {kinks : Nat} {outcomes : List (Outcome α)}
    (h : p.Collects d kinks outcomes) : p.CollectsTimed d kinks outcomes := by
  obtain ⟨order, hperm, hall⟩ := h
  refine ⟨order, hperm, hall.imp ?_⟩
  rintro b _ ⟨s, rfl⟩
  exact ⟨p.synth.solve, s, rfl⟩

theorem MayAnswer.timed {p : Pipeline α σ} {d : Grid α} {config : SurveyConfig} {m : Atlas α}
    (h : p.MayAnswer d config (.ok m)) : p.MayGiveTimed d config m := by
  unfold MayAnswer at h
  cases hrun : p.preflight d with
  | error f => simp [hrun] at h
  | ok u =>
    simp only [hrun, Except.ok.injEq] at h
    obtain ⟨reports, hreports, rfl⟩ := h
    exact ⟨reports, fun k hk => (hreports k hk).timed, rfl⟩

theorem MayGiveTimed.of_survey {p : Pipeline α σ} {d : Grid α} {config : SurveyConfig} {m : Atlas α}
    (h : (∃ stop s, (p.survey d config stop s).1 = .ok m) ∨ p.MayGiveTimed d config m) :
    p.MayGiveTimed d config m := by
  rcases h with ⟨stop, s, h⟩ | h
  · exact (p.mayAnswer_of_survey d config stop s m h).timed
  · exact h

theorem CollectsTimed.labels {p : Pipeline α σ} {d : Grid α} {kinks : Nat}
    {outcomes : List (Outcome α)} (h : p.CollectsTimed d kinks outcomes) :
    ∀ o ∈ outcomes, ∃ b ∈ (Search.new d kinks).toList, ∃ solve s,
      o = ((p.solvedBy solve).labelGrid d b s).1 := by
  obtain ⟨order, hperm, hall⟩ := h
  intro o ho
  obtain ⟨i, hi, rfl⟩ := List.getElem_of_mem ho
  have hb : i < order.length := hall.length_eq ▸ hi
  exact ⟨order[i], hperm.subset (List.getElem_mem hb), hall.get hb hi⟩

theorem CollectsTimed.isReport {p : Pipeline α σ} {d : Grid α} {kinks : Nat}
    {outcomes : List (Outcome α)} (h : p.CollectsTimed d kinks outcomes) :
    IsReport d kinks outcomes := by
  have hrecords := h.labels
  obtain ⟨order, hperm, hall⟩ := h
  have hboundaries : List.Forall₂ (fun b o => b = o.boundary) order outcomes := by
    refine hall.imp ?_
    rintro b _ ⟨solve, s, rfl⟩
    exact ((p.solvedBy solve).boundary_labelGrid d b s).symm
  rw [← List.forall₂_map_right_iff, List.forall₂_eq_eq_eq] at hboundaries
  refine ⟨hboundaries ▸ hperm, fun o ho r hr => ?_⟩
  obtain ⟨b, -, solve, s, rfl⟩ := hrecords o ho
  rw [boundary_labelGrid]
  exact (p.solvedBy solve).record?_labelGrid d b s r hr

theorem Collects.isReport {p : Pipeline α σ} {d : Grid α} {kinks : Nat}
    {outcomes : List (Outcome α)} (h : p.Collects d kinks outcomes) : IsReport d kinks outcomes :=
  h.timed.isReport

/-- A survey that is not cancelled gives this atlas, whoever shares its passes. -/
def Gives (p : Pipeline α σ) (d : Grid α) (config : SurveyConfig) (m : Atlas α) : Prop :=
  (∀ s, (p.survey d config .never s).1 = .ok m) ∧
    ∀ answer, p.MayAnswer d config answer ↔ answer = .ok m

theorem gives_of_isPure (p : Pipeline α σ) (hpure : p.labeler.IsPure) (d : Grid α)
    (config : SurveyConfig) (hrun : p.preflight d = .ok ()) (s : Session α σ) :
    p.Gives d config (.ofOutcomes d config fun b => (p.labelGrid d b s).1) := by
  have hfixed := p.survey_of_fixed d config hrun _ (fun b => p.boundary_labelGrid d b s)
    fun k hk b hb t => p.labelGrid_of_isPure hpure d b t s
  exact ⟨fun t => (hfixed t).1, (hfixed s).2⟩

theorem get?_ofOutcomes_labelGrid (p : Pipeline α σ) (d : Grid α) (config : SurveyConfig)
    (s : Session α σ) (b : GridBoundary) (label : Bool) :
    (Atlas.ofOutcomes d config fun b => (p.labelGrid d b s).1).get? b = some label ↔
      (∃ trace, p.traceOf d b = .ok trace ∧ (p.labeler.classify s.labeler trace).1 = label) ∧
        ∃ k ≤ lastPass d config, b ∈ (Search.new d k).toList := by
  rw [Atlas.get?_ofOutcomes d config _ fun b => p.boundary_labelGrid d b s, labelGrid_fst,
    verdict_eq]
  refine and_congr_left fun _ => ?_
  cases p.traceOf d b <;> simp [Except.map, Outcome.label?, Outcome.record?]

theorem isSome_ofOutcomes_labelGrid (p : Pipeline α σ) (d : Grid α) (config : SurveyConfig)
    (s : Session α σ) (b : GridBoundary) :
    ((Atlas.ofOutcomes d config fun b => (p.labelGrid d b s).1).get? b).isSome = true ↔
      (∃ trace, p.traceOf d b = .ok trace) ∧
        ∃ k ≤ lastPass d config, b ∈ (Search.new d k).toList := by
  rw [Option.isSome_iff_exists]
  simp only [get?_ofOutcomes_labelGrid]
  constructor
  · rintro ⟨_, ⟨trace, htrace, -⟩, hlisted⟩
    exact ⟨⟨trace, htrace⟩, hlisted⟩
  · rintro ⟨⟨trace, htrace⟩, hlisted⟩
    exact ⟨_, ⟨trace, htrace, rfl⟩, hlisted⟩

end Pipeline

end BoundaryAtlas
