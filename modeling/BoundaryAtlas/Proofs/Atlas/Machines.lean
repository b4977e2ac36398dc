import BoundaryAtlas.Proofs.Pipeline.Soundness
import BoundaryAtlas.Proofs.Atlas.Passes

/-!
# Surveys in machine words

A sound machine that comes to the end of a survey gives the atlas without bounds. The machine of
words comes to the end if the grid fits into the words, the workers start, no condition fails when a
boundary is labeled, and no pass has more boundaries than can be counted.
-/

namespace BoundaryAtlas

variable {α σ : Type}

namespace Machine

variable {M : Machine Option}

/-! ## Atlases -/

theorem Sound.tally (hM : M.Sound) (t : Tally) : Agrees (M.tally t) t := by
  show Agrees (M.tally t) (ideal.tally t).run
  unfold Machine.tally
  iterate 5 refine (hM.size _).bind ?_
  exact agrees_some _

theorem Sound.note (hM : M.Sound) (t : Tally) (o : Outcome α) : Agrees (M.note t o) (t.note o) :=
  hM.tally (t.note o)

theorem Sound.addPass (hM : M.Sound) (m : Atlas α) (kinks : Nat) (outcomes : List (Outcome α)) :
    Agrees (M.addPass m kinks outcomes) (m.addPass kinks outcomes) :=
  (agrees_foldlM (g := fun t o => ideal.note t o) hM.note outcomes .zero).bind (agrees_some _)

/-- A tally none of whose counts is above `n`. -/
structure UpTo (n : Nat) (t : Tally) : Prop where
  labeled : t.labeled ≤ n
  positives : t.positives ≤ n
  infeasible : t.infeasible ≤ n
  timedOut : t.timedOut ≤ n
  invalid : t.invalid ≤ n

theorem UpTo.note {n : Nat} {t : Tally} (h : UpTo n t) (o : Outcome α) : UpTo (n + 1) (t.note o) := by
  have hadd : ∀ t' : Tally, t + t' = ⟨t.labeled + t'.labeled, t.positives + t'.positives,
    t.infeasible + t'.infeasible, t.timedOut + t'.timedOut, t.invalid + t'.invalid⟩ := fun _ => rfl
  obtain ⟨h₁, h₂, h₃, h₄, h₅⟩ := h
  rw [Tally.note, hadd]
  unfold Tally.ofOutcome
  constructor <;> split <;> (try split) <;> simp only <;> omega

theorem tally_isSome {n : Nat} (hn : n < 2 ^ 64) {t : Tally} (h : UpTo n t) :
    (words.tally t).isSome = true := by
  have hsize : ∀ i ≤ n, (words.size i).isSome = true := by
    intro i hi
    show (below (twoPow 64) i).isSome = true
    rw [below, if_pos (by exact hi.trans_lt hn)]
    rfl
  refine isSome_bind (hsize _ h.labeled) fun _ _ => isSome_bind (hsize _ h.positives) fun _ _ => ?_
  refine isSome_bind (hsize _ h.infeasible) fun _ _ => isSome_bind (hsize _ h.timedOut) fun _ _ => ?_
  exact isSome_bind (hsize _ h.invalid) fun _ _ => rfl

theorem foldlM_note_isSome (outcomes : List (Outcome α)) {n : Nat} (hn : n + outcomes.length < 2 ^ 64)
    {t : Tally} (h : UpTo n t) : (outcomes.foldlM words.note t).isSome = true := by
  induction outcomes generalizing n t with
  | nil => rfl
  | cons o outcomes ih =>
    rw [List.length_cons] at hn
    refine isSome_bind (tally_isSome (by omega) (h.note o)) fun next hnext => ?_
    rw [sound_words.note t o next hnext]
    exact ih (by omega) (h.note o)

theorem addPass_eq (m : Atlas α) (kinks : Nat) (outcomes : List (Outcome α))
    (h : outcomes.length < 2 ^ 64) :
    words.addPass m kinks outcomes = some (m.addPass kinks outcomes) := by
  have hzero : UpTo 0 .zero := by constructor <;> exact le_refl 0
  refine (sound_words.addPass m kinks outcomes).eq_some ?_
  exact isSome_bind (foldlM_note_isSome outcomes (by omega) hzero) fun _ _ => rfl

theorem Sound.records {M : Machine Option} (hM : M.Sound) (m : Atlas α) :
    Agrees (M.records m) m.records := by
  refine Agrees.mapM (fun x => ?_) m.labels.toList
  exact (hM.turns x.1.points).bind (agrees_some _)

theorem records_eq (m : Atlas α)
    (h : ∀ b, m.get? b ≠ none → words.kinks b = some b.kinks) :
    words.records m = some m.records := by
  rw [Atlas.records_def]
  refine mapM_eq_some_map fun (b, label) hb => ?_
  have hget : m.get? b = some label := Std.ExtTreeMap.mem_toList_iff_getElem?_eq_some.mp hb
  dsimp only
  rw [h b (by rw [hget]; exact Option.some_ne_none label)]
  rfl

theorem recordsWith_eq (m : Atlas α) (kinks : Nat)
    (h : ∀ b, m.get? b ≠ none → words.kinks b = some b.kinks) :
    words.recordsWith m kinks = some (m.recordsWith kinks) := by
  rw [Machine.recordsWith, records_eq m h]
  rfl

theorem records_isSome_iff (m : Atlas α) :
    (words.records m).isSome = true ↔
      ∀ b, m.get? b ≠ none → (words.kinks b).isSome = true := by
  constructor
  · intro h b hb
    obtain ⟨label, hlabel⟩ := Option.ne_none_iff_exists'.mp hb
    have hmem : (b, label) ∈ m.labels.toList :=
      Std.ExtTreeMap.mem_toList_iff_getElem?_eq_some.mpr hlabel
    obtain ⟨_, hr⟩ := Option.isSome_iff_exists.mp (isSome_of_isSome_mapM h _ hmem)
    obtain ⟨n, hn, -⟩ := exists_of_isSome_bind (Option.isSome_iff_exists.mpr ⟨_, hr⟩)
    exact Option.isSome_iff_exists.mpr ⟨n, hn⟩
  · intro h
    rw [records_eq m fun b hb => (sound_words.kinks b).eq_some (h b hb)]
    rfl

variable [Scalar α] (p : Pipeline α σ) (d : Grid α)

/-! ## Surveys -/

theorem Sound.labelAll (hM : M.Sound) (l : List GridBoundary) (s : Session α σ) :
    Agrees (M.labelAll p d l s) (p.labelAll d l s) := by
  show Agrees _ (ideal.labelAll p d l s).run
  refine agrees_foldlM (fun state b => ?_) l (#[], s)
  exact (hM.labelGrid p d b state.2).bind (y := ideal.labelGrid p d b state.2) (agrees_some _)

theorem Sound.passStep (hM : M.Sound) (stop : StopSignal α σ)
    (state : Array (Outcome α) × Session α σ) (b : GridBoundary) :
    Agrees (M.passStep p d stop state b) (p.passStep d stop state b) := by
  show Agrees (M.passStep p d stop state b) (ideal.passStep p d stop state b).run
  unfold Machine.passStep
  dsimp only
  split
  · exact agrees_some _
  · exact (hM.labelGrid p d b state.2).bind (y := ideal.labelGrid p d b state.2) (agrees_some _)

theorem Sound.pass (hM : M.Sound) (stop : StopSignal α σ) (kinks : Nat) (s : Session α σ) :
    Agrees (M.pass p d stop kinks s) (p.pass d stop kinks s) := by
  refine (hM.search d kinks).bind (y := ideal.search d kinks) ?_
  exact (hM.visit _ (hM.passStep p d stop) (#[], s)).bind (agrees_some _)

theorem Sound.passes (hM : M.Sound) (stop : StopSignal α σ) (count kinks : Nat) (m : Atlas α)
    (s : Session α σ) :
    Agrees (M.passes p d stop count kinks m s) (p.passes d stop count kinks m s) := by
  induction count generalizing kinks m s with
  | zero => exact agrees_some _
  | succ count ih =>
    show Agrees _ (ideal.passes p d stop (count + 1) kinks m s).run
    unfold Machine.passes
    refine (hM.pass p d stop kinks s).bind (y := ideal.pass p d stop kinks s) ?_
    dsimp only
    split
    · exact agrees_some _
    · exact (hM.addPass m kinks _).bind (y := ideal.addPass m kinks _) (ih _ _ _)

theorem Sound.survey (hM : M.Sound) (config : SurveyConfig) (pool : WorkerPool)
    (hpool : p.startWorkers config pool = .ok ()) (stop : StopSignal α σ) (s : Session α σ) :
    Agrees (M.survey p d config pool stop s) (p.survey d config stop s) := by
  rw [Pipeline.survey_def]
  unfold Machine.survey
  rw [hpool]
  cases p.preflight d with
  | error fault => exact agrees_some _
  | ok _ => exact hM.passes p d stop _ _ _ s

theorem Sound.survey_ok (hM : M.Sound) {config : SurveyConfig} {pool : WorkerPool}
    {stop : StopSignal α σ} {s s' : Session α σ} {m : Atlas α}
    (h : M.survey p d config pool stop s = some (.ok m, s')) :
    p.survey d config stop s = (.ok m, s') := by
  have hpool : p.startWorkers config pool = .ok () := by
    unfold Machine.survey at h
    cases hrun : p.preflight d with
    | error fault => simp [hrun] at h
    | ok _ =>
      cases hpool : p.startWorkers config pool with
      | error fault => simp [hrun, hpool] at h
      | ok _ => rfl
  exact (hM.survey p d config pool hpool stop s _ h).symm

end Machine

/-! ## Surveys that come to their end -/

open Machine

variable [Scalar α]

/-- In machine words a survey comes to its end: no count overflows, the workers start, and each
boundary is labeled or has a fault. -/
structure Pipeline.RunsThrough (p : Pipeline α σ) (d : Grid α) (config : SurveyConfig)
    (pool : WorkerPool) : Prop where
  fits : Fits d.numX d.numY
  workers : p.startWorkers config pool = .ok ()
  labels : ∀ k ≤ Pipeline.lastPass d config, ∀ b ∈ (Search.new d k).toList, ∀ s,
    (words.labelGrid p d b s).isSome = true
  counts : ∀ k ≤ Pipeline.lastPass d config, (Search.new d k).toList.length < 2 ^ 64

namespace Pipeline

omit [Scalar α] in
theorem le_kinkLimit_of_le_lastPass {d : Grid α} {config : SurveyConfig} {k : Nat}
    (h : k ≤ lastPass d config) : k ≤ d.kinkLimit := h.trans (min_le_right _ _)

theorem length_visitAll_le (p : Pipeline α σ) (d : Grid α) (stop : StopSignal α σ)
    (l : List (List GridPoint)) (found : Array (Outcome α)) (s : Session α σ) :
    (Search.visitAll (p.passStep d stop) l (found, s)).1.size ≤ found.size + l.length := by
  induction l generalizing found s with
  | nil => exact Nat.le_refl _
  | cons points l ih =>
    rw [Search.visitAll, passStep_def]
    cases stop s with
    | true => exact Nat.le_add_right _ _
    | false =>
      refine (ih _ _).trans ?_
      rw [Array.size_push, List.length_cons]
      omega

theorem length_outcomes_pass_le (p : Pipeline α σ) (d : Grid α) (stop : StopSignal α σ)
    (kinks : Nat) (s : Session α σ) :
    (p.pass d stop kinks s).1.outcomes.length ≤ (Search.new d kinks).toList.length := by
  have hle := p.length_visitAll_le d stop (Search.new d kinks).left #[] s
  rw [Search.toList_new, List.length_map]
  simpa [pass_def, Search.visit_new] using hle

namespace RunsThrough

variable {p : Pipeline α σ} {d : Grid α} {config : SurveyConfig} {pool : WorkerPool}
  (h : p.RunsThrough d config pool) {k : Nat} (hk : k ≤ lastPass d config)

include h hk

theorem search_eq : words.search d k = some (Search.new d k) :=
  h.fits.search_eq (le_kinkLimit_of_le_lastPass hk)

theorem labelGrid_eq {b : GridBoundary} (hb : b ∈ (Search.new d k).toList) (s : Session α σ) :
    words.labelGrid p d b s = some (p.labelGrid d b s) :=
  (sound_words.labelGrid p d b s).eq_some (h.labels k hk b hb s)

theorem pass_eq (stop : StopSignal α σ) (s : Session α σ) :
    words.pass p d stop k s = some (p.pass d stop k s) := by
  refine (sound_words.pass p d stop k s).eq_some ?_
  rw [Machine.pass, h.search_eq hk, Option.bind_eq_bind, Option.bind_some]
  refine isSome_bind (visit_isSome h.fits (fun state b hb => ?_) _) fun _ _ => rfl
  unfold Machine.passStep
  dsimp only
  split
  · rfl
  · have hlabel := h.labels k hk b ((Search.mem_toList_new d k b).mpr hb) state.2
    exact isSome_bind hlabel fun _ _ => rfl

theorem addPass_eq {outcomes : List (Outcome α)} (m : Atlas α)
    (hle : outcomes.length ≤ (Search.new d k).toList.length) :
    words.addPass m k outcomes = some (m.addPass k outcomes) :=
  Machine.addPass_eq m k outcomes (hle.trans_lt (h.counts k hk))

theorem labelAll_eq {l : List GridBoundary} (hl : ∀ b ∈ l, b ∈ (Search.new d k).toList)
    (s : Session α σ) : words.labelAll p d l s = some (p.labelAll d l s) := by
  refine (sound_words.labelAll p d l s).eq_some ?_
  unfold Machine.labelAll
  generalize (#[] : Array (Outcome α)) = found
  induction l generalizing found s with
  | nil => rfl
  | cons b l ih =>
    obtain ⟨hb, hl⟩ := List.forall_mem_cons.mp hl
    rw [List.foldlM_cons]
    refine isSome_bind (isSome_bind (h.labels k hk b hb s) fun _ _ => rfl) fun state _ => ?_
    exact ih hl state.2 state.1

theorem enumerate_eq (s : Session α σ) : words.enumerate p d k s = some (p.records d k s) := by
  unfold Machine.enumerate Machine.outcomes
  rw [records_def, outcomes_def]
  cases p.preflight d with
  | error fault => rfl
  | ok _ =>
    simp only [h.search_eq hk, h.fits.toList_eq, h.labelAll_eq hk (fun _ hb => hb),
      Option.bind_eq_bind, Option.bind_some]
    rfl

omit hk

theorem passes_eq (stop : StopSignal α σ) {count kinks : Nat}
    (hlast : kinks + count ≤ lastPass d config + 1) (m : Atlas α) (s : Session α σ) :
    words.passes p d stop count kinks m s = some (p.passes d stop count kinks m s) := by
  induction count generalizing kinks m s with
  | zero => rfl
  | succ count ih =>
    have hk : kinks ≤ lastPass d config := by omega
    rw [Machine.passes, h.pass_eq hk, passes_succ]
    dsimp only [Option.bind_eq_bind, Option.bind_some]
    split
    · rfl
    · rw [h.addPass_eq hk m (p.length_outcomes_pass_le d stop kinks s)]
      exact ih (by omega) _ _

theorem survey_eq (stop : StopSignal α σ) (s : Session α σ) :
    words.survey p d config pool stop s = some (p.survey d config stop s) := by
  rw [Machine.survey, h.workers, survey_def]
  cases p.preflight d with
  | error fault => rfl
  | ok _ => exact h.passes_eq stop (by rw [lastPass]; omega) _ _

end RunsThrough

/-- The labeler has no say in whether a survey comes to its end, but for the workers. -/
theorem RunsThrough.relabel {τ : Type} {p : Pipeline α σ} {d : Grid α} {config : SurveyConfig}
    {pool : WorkerPool} (h : p.RunsThrough d config pool) (labeler : Labeler α τ)
    (hworkers : startWorkers ⟨p.synth, labeler, p.box, p.inverts⟩ config pool =
      (.ok () : Except (Fault α) Unit)) (s : Session α σ) :
    RunsThrough ⟨p.synth, labeler, p.box, p.inverts⟩ d config pool := by
  refine ⟨h.fits, hworkers, fun k hk b hb t => ?_, h.counts⟩
  have hlabel := h.labels k hk b hb s
  rw [labelGrid_isSome] at hlabel ⊢
  exact hlabel

/-- With exact numbers and a small slack, no condition fails on the way. -/
theorem runsThrough_of_chain {α : Type} [ExactScalar α] (p : Pipeline α σ) (d : Grid α)
    (config : SurveyConfig) (pool : WorkerPool) (hrun : p.preflight d = .ok ())
    (hbox : p.box.x = ⟨0, d.width⟩) (trace : TraceConfig α) (solver : SolverConfig α)
    (hsynth : p.synth = .chain trace solver) (hslack : 0 ≤ solver.slack)
    (hsmall : trace.numPoints * solver.slack ≤ solutionSlack) (hfits : Fits d.numX d.numY)
    (hworkers : p.startWorkers config pool = .ok ())
    (hcounts : ∀ k ≤ lastPass d config, (Search.new d k).toList.length < 2 ^ 64) :
    p.RunsThrough d config pool := by
  have hconfig := p.config_of_preflight d hrun
  refine ⟨hfits, hworkers, fun k _ b hb s => ?_, hcounts⟩
  have hcanonical := (Search.mem_toList_new d k b).mp hb
  rw [p.labelGrid_isSome_iff_isSoundOn d hbox hconfig (p.grid_of_preflight d hrun) strict_words
    hcanonical (by rw [kinks_of_isCanonical hfits hcanonical]; rfl)]
  rw [hsynth] at hconfig
  exact p.isSoundOn_chain d trace solver hsynth hconfig hslack hsmall b

end Pipeline

end BoundaryAtlas
