import BoundaryAtlas.Proofs.Trace.Unbounded
import BoundaryAtlas.Proofs.Pipeline.Soundness
import BoundaryAtlas.Proofs.Atlas.Machines
import BoundaryAtlas.Proofs.Atlas.InOrder
import BoundaryAtlas.Proofs.Atlas.Turned

/-!
# Boundaries that are skipped

In a survey with a pipeline over the width of its grid, a boundary is skipped only if the solver
finds no trace for it or runs out of time. A machine that looks at conditions stops at a boundary
only if the solver's trajectory is off its constraints. If steps have no bound and the grid lies in
the state box, then no boundary is skipped.
-/

namespace BoundaryAtlas

variable {α σ : Type}

/-! ## Counters that stay at zero -/

theorem Tally.invalid_foldl (outcomes : List (Outcome α))
    (h : ∀ o ∈ outcomes, (ofOutcome o).invalid = 0) (t : Tally) :
    (outcomes.foldl note t).invalid = t.invalid := by
  induction outcomes generalizing t with
  | nil => rfl
  | cons o outcomes ih =>
    obtain ⟨ho, hrest⟩ := List.forall_mem_cons.mp h
    have hnote : (t.note o).invalid = t.invalid + (ofOutcome o).invalid := rfl
    rw [List.foldl_cons, ih hrest, hnote, ho, Nat.add_zero]

theorem Tally.skipped_add (s t : Tally) : (s + t).skipped = s.skipped + t.skipped := by
  have hadd : (s + t).skipped = s.infeasible + t.infeasible + (s.timedOut + t.timedOut) +
    (s.invalid + t.invalid) := rfl
  unfold skipped at hadd ⊢
  omega

theorem Atlas.passTally_of_labeled (d : Grid α) (f : GridBoundary → Outcome α) (k : Nat)
    (h : ∀ b ∈ (Search.new d k).toList, (f b).label? ≠ none) :
    (passTally d f k).labeled = (Search.new d k).toList.length ∧ (passTally d f k).skipped = 0 := by
  obtain ⟨hall, hlabeled, -⟩ := Tally.counts_foldl ((Search.new d k).toList.map f)
  have hrecords : (((Search.new d k).toList.map f).filterMap Outcome.record?).length =
      ((Search.new d k).toList.map f).length := by
    rw [List.filterMap_length_eq_length, List.forall_mem_map]
    intro b hb
    rw [Option.isSome_iff_ne_none]
    exact fun hnone => h b hb (by rw [Outcome.label?, hnone]; rfl)
  rw [hrecords, List.length_map] at hlabeled
  rw [List.length_map] at hall
  refine ⟨hlabeled, ?_⟩
  unfold Tally.skipped passTally
  omega

theorem Atlas.size_of_labeled (d : Grid α) (config : SurveyConfig) (f : GridBoundary → Outcome α)
    (hb : ∀ b, (f b).boundary = b)
    (hr : ∀ b r, (f b).record? = some r → r = ⟨b, b.kinks, r.label⟩)
    (h : ∀ k ≤ Pipeline.lastPass d config, ∀ b ∈ (Search.new d k).toList,
      (ofOutcomes d config f).get? b ≠ none) :
    (ofOutcomes d config f).total.skipped = 0 ∧
      (ofOutcomes d config f).size =
        ((List.range (Pipeline.lastPass d config + 1)).map fun k =>
          (Search.new d k).toList.length).sum := by
  have hpass : ∀ k ∈ List.range (Pipeline.lastPass d config + 1),
      (passTally d f k).labeled = (Search.new d k).toList.length ∧
        (passTally d f k).skipped = 0 := by
    intro k hk
    apply passTally_of_labeled
    intro b hmem
    obtain ⟨label, hget⟩ := Option.ne_none_iff_exists'.mp
      (h k (Nat.lt_succ_iff.mp (List.mem_range.mp hk)) b hmem)
    rw [((get?_ofOutcomes d config f hb b label).mp hget).1]
    exact Option.some_ne_none label
  have hread := fun read => (ofOutcomes d config f).read_total_range
    (Pipeline.lastPass d config + 1) (passTally d f) read
  constructor
  · rw [hread Tally.skipped rfl Tally.skipped_add (tally?_ofOutcomes d config f),
      List.map_congr_left fun k hk => (hpass k hk).2]
    simp
  · rw [← labeled_total_ofOutcomes d config f hb hr,
      hread Tally.labeled rfl (fun _ _ => rfl) (tally?_ofOutcomes d config f),
      List.map_congr_left fun k hk => (hpass k hk).1]

namespace Pipeline

variable [ExactScalar α]

/-! ## Pipelines over a grid -/

theorem box_onGrid (synth : Synthesizer α) (labeler : Labeler α σ) (inverts : Bool) (d : Grid α) :
    ((onGrid synth labeler d).turning inverts).box.x = ⟨0, d.width⟩ := by
  unfold turning onGrid gridBox
  rw [ExactScalar.ofNat_eq, Nat.cast_zero]

theorem solvedBy_onGrid (synth : Synthesizer α) (labeler : Labeler α σ) (inverts : Bool)
    (d : Grid α) (solve : TraceConstraints α → SolverAnswer α) :
    ((onGrid synth labeler d).turning inverts).solvedBy solve =
      (onGrid ⟨synth.config, solve⟩ labeler d).turning inverts := rfl

theorem labelGrid_onGrid (synth : Synthesizer α) (labeler : Labeler α σ) (inverts : Bool)
    (d : Grid α) (hgrid : d.validate = .ok ()) (hconfig : synth.config.validate = .ok ()) (k : Nat)
    (b : GridBoundary) (hb : b ∈ (Search.new d k).toList) (s : Session α σ) :
    let outcome := (((onGrid synth labeler d).turning inverts).labelGrid d b s).1
    (∃ label, outcome = .labeled ⟨b, k, label⟩) ∨
      (∃ sample, outcome = .failed b (.unsatisfiable sample)) ∨
      ∃ elapsed, outcome = .failed b (.solverTimeout elapsed) := by
  intro outcome
  have hcanonical := (Search.mem_toList_new d k b).mp hb
  cases hfault : ((onGrid synth labeler d).turning inverts).fault? d b with
  | none =>
    obtain ⟨label, hlabel⟩ := labelGrid_of_no_fault _ d b s hfault
    rw [hcanonical.kinks_eq] at hlabel
    exact .inl ⟨label, hlabel⟩
  | some f =>
    have houtcome : outcome = .failed b f := labelGrid_of_fault _ d b s f hfault
    obtain ⟨sample, rfl⟩ | ⟨elapsed, rfl⟩ := isSolver_of_fault _ d
      (box_onGrid synth labeler inverts d) hconfig hgrid hcanonical f hfault
    · exact .inr (.inl ⟨sample, houtcome⟩)
    · exact .inr (.inr ⟨elapsed, houtcome⟩)

theorem invalid_onGrid (synth : Synthesizer α) (labeler : Labeler α σ) (inverts : Bool) (d : Grid α)
    (hgrid : d.validate = .ok ()) (hconfig : synth.config.validate = .ok ()) {config : SurveyConfig}
    {m : Atlas α} (h : ((onGrid synth labeler d).turning inverts).MayGiveTimed d config m) {k : Nat}
    (hk : k ≤ lastPass d config) : ∃ t, m.tally? k = some t ∧ t.invalid = 0 := by
  obtain ⟨reports, hreports, rfl⟩ := h
  refine ⟨(reports k).foldl Tally.note .zero, ?_, ?_⟩
  · rw [Atlas.tally?_addPasses, if_pos (by omega)]
  · apply Tally.invalid_foldl
    intro o ho
    obtain ⟨b, hb, solve, s, rfl⟩ := (hreports k hk).labels o ho
    rw [solvedBy_onGrid]
    obtain ⟨label, h⟩ | ⟨sample, h⟩ | ⟨elapsed, h⟩ :=
      labelGrid_onGrid ⟨synth.config, solve⟩ labeler inverts d hgrid hconfig k b hb s
    all_goals
      rw [h]
      rfl

/-- **Faults of the solver.** Let a pipeline be built for a valid grid, with valid settings and with
or without turns. If the solver's answers meet their constraints, as those for chains do with a
small slack, then the solver alone leaves a boundary of the grid without a label: it finds no trace,
or it runs out of time. At an answer that does not meet them, labeling stops. No outcome of a survey
counts as invalid, whatever the labeler and the solver do. -/
theorem onGrid_fails_by_solver (synth : Synthesizer α) (labeler : Labeler α σ) (inverts : Bool)
    (d : Grid α) (hgrid : d.validate = .ok ()) (hconfig : synth.config.validate = .ok ()) :
    let p := (onGrid synth labeler d).turning inverts
    (∀ k, ∀ b ∈ (Search.new d k).toList, ∀ s,
      (p.IsSoundOn d b → ∃ r, Machine.checked.labelGrid p d b s = some r ∧
        ((∃ label, r.1 = .labeled ⟨b, k, label⟩) ∨
        (∃ sample, r.1 = .failed b (.unsatisfiable sample)) ∨
        ∃ elapsed, r.1 = .failed b (.solverTimeout elapsed))) ∧
      (¬ p.IsSoundOn d b → Machine.checked.labelGrid p d b s = none)) ∧
    (∀ solver : SolverConfig α, synth = .chain synth.config solver → 0 ≤ solver.slack →
      synth.config.numPoints * solver.slack ≤ solutionSlack → ∀ b, p.IsSoundOn d b) ∧
    ∀ config m, (∃ pool stop s s', Machine.checked.survey p d config pool stop s = some (.ok m, s')) ∨
        p.MayGiveTimed d config m →
      ∀ k ≤ lastPass d config, ∃ t, m.tally? k = some t ∧ t.invalid = 0 := by
  intro p
  refine ⟨fun k b hb s => ?_, fun solver hsynth hslack hsmall b => ?_, fun config m h k hk => ?_⟩
  · have hcanonical := (Search.mem_toList_new d k b).mp hb
    have hkinks : (Machine.checked.kinks b).isSome = true := by rw [Machine.checked_kinks]; rfl
    have hstops := p.labelGrid_isSome_iff_isSoundOn d (box_onGrid synth labeler inverts d) hconfig
      hgrid Machine.strict_checked hcanonical hkinks s
    refine ⟨fun hsound => ?_, fun hoff => ?_⟩
    · exact ⟨_, (Machine.sound_checked.labelGrid p d b s).eq_some (hstops.mpr hsound),
        labelGrid_onGrid synth labeler inverts d hgrid hconfig k b hb s⟩
    · rw [← Option.not_isSome_iff_eq_none, hstops]
      exact hoff
  · exact p.isSoundOn_chain d synth.config solver hsynth hconfig hslack hsmall b
  have hgive : p.MayGiveTimed d config m := by
    rcases h with ⟨pool, stop, s, s', h⟩ | h
    · have hok := Machine.sound_checked.survey_ok p d h
      exact (p.mayAnswer_of_survey d config stop s m (by rw [hok])).timed
    · exact h
  exact invalid_onGrid synth labeler inverts d hgrid hconfig hgive hk

/-- No trace follows the diagonal of a cell, turned or not. The survey counts it as infeasible. -/
theorem onGrid_fails_by_solver_steep :
    cell.validate = .ok () ∧ steep.synth.config.validate = .ok () ∧
    (∃ sample s', Machine.checked.labelGrid (steep.turning true) cell ⟨[⟨0, 0⟩, ⟨1, 1⟩]⟩
      (.new () false) = some (.failed ⟨[⟨0, 0⟩, ⟨1, 1⟩]⟩ (.unsatisfiable sample), s')) ∧
    ∃ m s', Machine.checked.survey (steep.turning true) cell ⟨5, none⟩ .willing .never
        (.new () false) = some (.ok m, s') ∧
      ∃ t, m.tally? 2 = some t ∧ t.invalid = 0 := by
  have hgrid : cell.validate = .ok () := by decide +kernel
  have hconfig : steep.synth.config.validate = .ok () := by decide +kernel
  obtain ⟨hcases, hchain, hsurvey⟩ :=
    onGrid_fails_by_solver steep.synth steep.labeler true cell hgrid hconfig
  have hsound := hchain ⟨none, 0, fun _ => 0⟩ rfl (le_refl 0) (by norm_num [solutionSlack])
  refine ⟨hgrid, hconfig, ?_, ?_⟩
  · obtain ⟨r, hr, h⟩ := (hcases 0 ⟨[⟨0, 0⟩, ⟨1, 1⟩]⟩ (by decide +kernel) (.new () false)).1 (hsound _)
    have hanswer : r.1.answer = .error (.unsatisfiable 1) := by
      have hexact := Machine.sound_checked.labelGrid _ _ _ _ r hr
      rw [hexact]
      decide +kernel
    obtain ⟨label, h⟩ | ⟨sample, h⟩ | ⟨elapsed, h⟩ := h
    · cases h.symm ▸ hanswer
    · exact ⟨sample, r.2, hr.trans (by rw [← h])⟩
    · cases h.symm ▸ hanswer
  · have hok : ((Machine.checked.survey (steep.turning true) cell ⟨5, none⟩ .willing .never
        (.new () false)).any fun r => r.1.isOk) = true := by decide +kernel
    obtain ⟨⟨answer, s'⟩, hanswer, hok⟩ := (Option.any_eq_true _ _).mp hok
    obtain ⟨m, rfl⟩ := exists_of_isOk hok
    exact ⟨m, s', hanswer, hsurvey ⟨5, none⟩ m (.inl ⟨_, _, _, _, hanswer⟩) 2 (by decide)⟩

/-- A solver that takes intervals that are empty by three fifths. -/
def careless : Pipeline ℚ Unit :=
  onGrid (.chain ⟨1 / 100, 2, some (1 / 2), 0, 1, .reject⟩ ⟨none, 3 / 5, fun _ => 0⟩)
    (.ofFn "always" fun _ => true) cell

/-- Its last state is a half below the diagonal, so that labeling stops. -/
theorem onGrid_stops_careless :
    cell.validate = .ok () ∧ careless.synth.config.validate = .ok () ∧
    ⟨[⟨0, 0⟩, ⟨1, 1⟩]⟩ ∈ (Search.new cell 0).toList ∧
    Machine.checked.labelGrid careless cell ⟨[⟨0, 0⟩, ⟨1, 1⟩]⟩ (.new () false) = none := by
  refine ⟨by decide +kernel, by decide +kernel, by decide +kernel, ?_⟩
  rw [← Option.isNone_iff_eq_none]
  decide +kernel

/-! ## Steps without a bound -/

theorem no_fault_of_unbounded (p : Pipeline α σ) (solver : SolverConfig α)
    (hsolve : ∀ s, p.synth.solve s = Chain.solve s solver) (hclock : solver.NeverOverdue)
    (hslack : 0 ≤ solver.slack) (hrate : p.synth.config.rateBound? = none) (d : Grid α)
    (hgrid : d.validate = .ok ()) (hconfig : p.synth.config.validate = .ok ())
    (hbox : p.box.x = ⟨0, d.width⟩)
    (hstates : p.box.y = ⟨p.synth.config.stateMin, p.synth.config.stateMax⟩)
    (hmin : p.synth.config.stateMin ≤ 0) (hmax : d.height ≤ p.synth.config.stateMax) {n : Nat}
    {b : GridBoundary} (hb : b.IsCanonical d n) : p.fault? d b = none := by
  obtain ⟨hwidth, hpoints, -⟩ := p.synth.config.validate_eq_ok_iff.mp hconfig
  obtain ⟨c, hdomain, hinside, htrace⟩ := p.traceOf_eq d hbox hconfig hgrid hb
  have hinbox : ∀ q ∈ c.points, q.y ∈ p.box.y := by
    rw [hstates]
    exact fun q hq => ⟨hmin.trans (hinside q hq).1, (hinside q hq).2.trans hmax⟩
  have hsolvable : Chain.Solvable none ((((p.synth.config.times d.width).map
      (p.target c).valueInside).map (TraceConstraints.tube p.synth.config))) := by
    rw [Chain.solvable_none_iff, List.forall_mem_map, List.forall_mem_map]
    intro t ht
    apply p.synth.config.admits_of_mem _ hwidth.le
    rw [← hstates]
    exact p.value_mem d hbox hgrid hpoints c hdomain hinbox t ht
  rw [← hrate] at hsolvable
  obtain ⟨sol, hsol⟩ := Chain.solve_of_solvable (.around p.synth.config _) solver hclock hslack
    hsolvable
  rw [fault?, htrace, hsolve, hsol]
  rfl

/-- **No boundary is skipped.** Let steps have no bound, let the grid lie in the state box, and let
the solver come back in time. If the checks before the run pass, then a survey of the grid that is
not cancelled gives each boundary a label, whoever shares its passes. -/
theorem onGrid_skips_none (config : TraceConfig α) (solver : SolverConfig α)
    (labeler : Labeler α σ) (inverts : Bool) (d : Grid α) (hrate : config.rateBound? = none)
    (hmin : config.stateMin ≤ 0) (hmax : d.height ≤ config.stateMax) (hslack : 0 ≤ solver.slack)
    (hclock : solver.NeverOverdue) :
    let p := (onGrid (.chain config solver) labeler d).turning inverts
    p.preflight d = .ok () → ∀ survey s answer,
      answer = (p.survey d survey .never s).1 ∨ p.MayAnswer d survey answer →
      ∃ m, answer = .ok m ∧ m.total.skipped = 0 ∧
        m.size = ((List.range (lastPass d survey + 1)).map fun k =>
          (Search.new d k).toList.length).sum ∧
        ∀ k ≤ lastPass d survey, ∀ b ∈ (Search.new d k).toList, m.get? b ≠ none := by
  intro p hrun survey s answer hanswer
  have hgrid := p.grid_of_preflight d hrun
  have hconfig : config.validate = .ok () := p.config_of_preflight d hrun
  have hany : p.MayAnswer d survey answer := by
    rcases hanswer with rfl | hany
    · exact p.mayAnswer_survey_never d survey s
    · exact hany
  rw [MayAnswer, hrun] at hany
  obtain ⟨reports, hreports, rfl⟩ := hany
  have hget : ∀ k ≤ lastPass d survey, ∀ b ∈ (Search.new d k).toList,
      ((Atlas.empty d survey.maxKinks).addPasses reports (lastPass d survey + 1) 0).get? b ≠
        none := by
    intro k hk b hb
    have hcanonical := (Search.mem_toList_new d k b).mp hb
    have hfault := p.no_fault_of_unbounded solver (fun _ => rfl) hclock hslack hrate d hgrid hconfig
      (box_onGrid _ _ _ d) rfl hmin hmax hcanonical
    rw [Ne, p.missing_iff d survey reports hreports k hk b hb, hfault]
    rintro ⟨f, hf⟩
    cases hf
  have hfixed := Atlas.addPasses_eq_ofOutcomes d survey reports fun k hk => (hreports k hk).isReport
  rw [hfixed] at hget ⊢
  obtain ⟨hskipped, hsize⟩ := Atlas.size_of_labeled d survey _ (Atlas.boundary_reported reports)
    (Atlas.record?_reported reports) hget
  exact ⟨_, rfl, hskipped, hsize, hget⟩

/-- A pipeline on a cell whose traces may jump, with a labeler that counts its answers. -/
def jumping : Pipeline ℚ Nat :=
  onGrid (.chain ⟨1 / 10, 3, none, 0, 1, .reject⟩ Chain.strict) onlySecond.labeler cell

/-- Four straight boundaries, eight with one kink and four with two. -/
theorem onGrid_skips_none_jumping :
    jumping.synth.config.rateBound? = none ∧ jumping.synth.config.stateMin ≤ 0 ∧
    cell.height ≤ jumping.synth.config.stateMax ∧ 0 ≤ Chain.strict.slack ∧
    Chain.strict.NeverOverdue ∧ (jumping.turning true).preflight cell = .ok () ∧
    ∃ m, ((jumping.turning true).survey cell ⟨5, none⟩ .never (.new 0 false)).1 = .ok m ∧
      m.total.skipped = 0 ∧ m.size = 16 := by
  have hmin : jumping.synth.config.stateMin ≤ 0 := le_refl 0
  have hmax : cell.height ≤ jumping.synth.config.stateMax := by decide +kernel
  have hclock : Chain.strict.NeverOverdue := SolverConfig.neverOverdue_of_none _ rfl
  have hrun : (jumping.turning true).preflight cell = .ok () := by decide +kernel
  have hcount : ((List.range (lastPass cell ⟨5, none⟩ + 1)).map fun k =>
      (Search.new cell k).toList.length).sum = 16 := by decide +kernel
  obtain ⟨m, hm, hskipped, hsize, -⟩ := onGrid_skips_none jumping.synth.config Chain.strict
    jumping.labeler true cell rfl hmin hmax (le_refl 0) hclock hrun ⟨5, none⟩ (.new 0 false) _
    (.inl rfl)
  exact ⟨rfl, hmin, hmax, le_refl 0, hclock, hrun, m, hm, hskipped, hsize.trans hcount⟩

end Pipeline

end BoundaryAtlas
