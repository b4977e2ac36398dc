import BoundaryAtlas.Proofs.Atlas.Machines
import BoundaryAtlas.Proofs.Atlas.Surfacing

/-!
# Surveys do not depend on the order of their outcomes

Workers that share a pass bring its outcomes in any order. In machine words, too, the atlas is the
one that the boundaries in order give, if the outcome of each boundary is fixed and the survey comes
to its end. It does not on a grid with as many columns as there are words.
-/

namespace BoundaryAtlas

variable {α σ : Type}

namespace Machine

variable [Scalar α] (M : Machine Option)

/-- Adds the reports of `count` passes from `kinks` on. -/
def addPasses (reports : Nat → List (Outcome α)) : (count kinks : Nat) → Atlas α → Option (Atlas α)
  | 0, _, m => some m
  | count + 1, kinks, m => do
    addPasses reports count (kinks + 1) (← M.addPass m kinks (reports kinks))

/-- Outcomes that workers may bring for a pass. Each boundary is labeled once, in whatever session
its worker finds, and the outcomes come in any order. -/
def Collects (p : Pipeline α σ) (d : Grid α) (kinks : Nat) (outcomes : List (Outcome α)) : Prop :=
  ∃ search ∈ M.search d kinks, ∃ listed ∈ M.toList search, ∃ order : List GridBoundary,
    order.Perm listed ∧
    List.Forall₂ (fun b outcome => ∃ s s', M.labelGrid p d b s = some (outcome, s')) order outcomes

/-- What a survey may answer when workers share its passes. -/
def MayAnswer (p : Pipeline α σ) (d : Grid α) (config : SurveyConfig) (pool : WorkerPool)
    (answer : Except (Fault α) (Atlas α)) : Prop :=
  match p.preflight d with
  | .error fault => answer = .error fault
  | .ok () =>
    match p.startWorkers config pool with
    | .error fault => answer = .error fault
    | .ok () => ∃ reports : Nat → List (Outcome α),
        (∀ k ≤ Pipeline.lastPass d config, M.Collects p d k (reports k)) ∧
        ∃ m ∈ M.addPasses reports (Pipeline.lastPass d config + 1) 0 (.empty d config.maxKinks),
          answer = .ok m

end Machine

open Machine

namespace Pipeline

variable [Scalar α] {p : Pipeline α σ} {d : Grid α} {config : SurveyConfig} {pool : WorkerPool}

namespace RunsThrough

variable (h : p.RunsThrough d config pool)

include h

theorem collects_iff {k : Nat} (hk : k ≤ lastPass d config) (outcomes : List (Outcome α)) :
    words.Collects p d k outcomes ↔ p.Collects d k outcomes := by
  simp only [Machine.Collects, h.search_eq hk, Option.mem_some_iff, exists_eq_left', h.fits.toList_eq]
  refine exists_congr fun order => and_congr_right fun hperm => ?_
  have hlabel : ∀ b ∈ order, ∀ outcome,
      (∃ s s', words.labelGrid p d b s = some (outcome, s')) ↔
        ∃ s, outcome = (p.labelGrid d b s).1 := by
    intro b hb outcome
    refine exists_congr fun s => ?_
    rw [h.labelGrid_eq hk (hperm.subset hb) s]
    constructor
    · rintro ⟨s', heq⟩
      rw [Option.some.inj heq]
    · rintro rfl
      exact ⟨_, rfl⟩
  clear hperm
  induction order generalizing outcomes with
  | nil => simp
  | cons b order ih =>
    obtain ⟨hb, horder⟩ := List.forall_mem_cons.mp hlabel
    simp only [List.forall₂_cons_left_iff, hb, ih _ horder]

theorem addPasses_eq {reports : Nat → List (Outcome α)}
    (hreports : ∀ k ≤ lastPass d config, p.Collects d k (reports k)) {count kinks : Nat}
    (hlast : kinks + count ≤ lastPass d config + 1) (m : Atlas α) :
    words.addPasses reports count kinks m = some (m.addPasses reports count kinks) := by
  induction count generalizing kinks m with
  | zero => rfl
  | succ count ih =>
    have hk : kinks ≤ lastPass d config := by omega
    obtain ⟨order, hperm, hall⟩ := hreports kinks hk
    have hlength := hall.length_eq
    rw [hperm.length_eq] at hlength
    rw [Machine.addPasses, h.addPass_eq hk m hlength.ge]
    exact ih (by omega) _

theorem mayAnswer_iff (hrun : p.preflight d = .ok ()) (answer : Except (Fault α) (Atlas α)) :
    words.MayAnswer p d config pool answer ↔ p.MayAnswer d config answer := by
  rw [Machine.MayAnswer, MayAnswer, hrun, h.workers]
  refine exists_congr fun reports => ?_
  have hcollects : (∀ k ≤ lastPass d config, words.Collects p d k (reports k)) ↔
      ∀ k ≤ lastPass d config, p.Collects d k (reports k) :=
    forall₂_congr fun k hk => h.collects_iff hk _
  rw [hcollects]
  refine and_congr_right fun hreports => ?_
  simp [h.addPasses_eq hreports (Nat.zero_add _).le]

theorem recordsWith_ofOutcomes {f : GridBoundary → Outcome α} (hf : ∀ b, (f b).boundary = b)
    (k : Nat) : words.recordsWith (.ofOutcomes d config f) k =
      some ((Atlas.ofOutcomes d config f).recordsWith k) := by
  refine recordsWith_eq _ k fun b hget => ?_
  obtain ⟨label, hlabel⟩ := Option.ne_none_iff_exists'.mp hget
  obtain ⟨-, n, -, hmem⟩ := (Atlas.get?_ofOutcomes d config f hf b label).mp hlabel
  have hcanonical := (Search.mem_toList_new d n b).mp hmem
  rw [kinks_of_isCanonical h.fits hcanonical, hcanonical.kinks_eq]

end RunsThrough

/-- **Any order.** Let a survey come to its end in machine words, and let the outcome of each of its
boundaries be fixed. If it is not cancelled then it gives one atlas, in whatever order outcomes come
in. Its records with `k` kinks are the ones that a listing of the boundaries with `k` kinks has, and
it has labels for no other boundaries. -/
theorem survey_any_order (p : Pipeline α σ) (d : Grid α) (config : SurveyConfig)
    (pool : WorkerPool) (hrun : p.preflight d = .ok ()) (hends : p.RunsThrough d config pool)
    (f : GridBoundary → Outcome α)
    (hf : ∀ k ≤ lastPass d config, ∀ b ∈ (Search.new d k).toList, ∀ s,
      ∀ r ∈ words.labelGrid p d b s, r.1 = f b) (s : Session α σ) :
    ∃ m : Atlas α,
      (∃ s', words.survey p d config pool .never s = some (.ok m, s')) ∧
      (∀ answer, words.MayAnswer p d config pool answer ↔ answer = .ok m) ∧
      (∀ k ≤ lastPass d config, ∃ l s', words.enumerate p d k s = some (.ok (l, s')) ∧
        words.recordsWith m k = some l) ∧
      (∀ k, lastPass d config < k → words.recordsWith m k = some []) ∧
      ∀ b label, m.get? b = some label ↔
        ∃ k ≤ lastPass d config, ∃ l ∈ words.recordsWith m k, ⟨b, k, label⟩ ∈ l := by
  -- Off the listed boundaries `f` says nothing, so the outcomes are those of the session `s`.
  let g : GridBoundary → Outcome α := fun b => (p.labelGrid d b s).1
  have hb : ∀ b, (g b).boundary = b := fun b => p.boundary_labelGrid d b s
  have hr : ∀ b r, (g b).record? = some r → r = ⟨b, b.kinks, r.label⟩ :=
    fun b r h => p.record?_labelGrid d b s r h
  have hg : ∀ k ≤ lastPass d config, ∀ b ∈ (Search.new d k).toList, ∀ t,
      (p.labelGrid d b t).1 = g b := fun k hk b hmem t =>
    (hf k hk b hmem t _ (hends.labelGrid_eq hk hmem t)).trans
      (hf k hk b hmem s _ (hends.labelGrid_eq hk hmem s)).symm
  obtain ⟨hsurvey, hany⟩ := p.survey_of_fixed d config hrun g hb hg s
  have hrecords := fun k => hends.recordsWith_ofOutcomes hb k
  refine ⟨.ofOutcomes d config g, ?_, ?_, ?_, ?_, ?_⟩
  · exact ⟨_, by rw [hends.survey_eq, ← hsurvey]⟩
  · exact fun answer => (hends.mayAnswer_iff hrun answer).trans (hany answer)
  · intro k hk
    refine ⟨_, (p.labelAll d (Search.new d k).toList s).2, ?_, hrecords k⟩
    rw [hends.enumerate_eq hk, records_def, outcomes_def, hrun,
      Atlas.recordsWith_ofOutcomes d config g hr hb k hk, ← p.labelAll_eq d g _ (hg k hk) s]
    rfl
  · intro k hk
    rw [hrecords, Option.some_inj, List.eq_nil_iff_forall_not_mem]
    intro r hmem
    exact absurd ((Atlas.mem_recordsWith_ofOutcomes d config g hb k r).mp hmem).2.1 (not_le.mpr hk)
  · intro b label
    rw [Atlas.get?_ofOutcomes d config g hb]
    simp only [hrecords, Option.mem_some_iff, exists_eq_left',
      Atlas.mem_recordsWith_ofOutcomes d config g hb]
    constructor
    · rintro ⟨hlabel, k, hk, hmem⟩
      exact ⟨k, hk, hlabel, hk, trivial, hmem⟩
    · rintro ⟨k, -, hlabel, hk, -, hmem⟩
      exact ⟨hlabel, k, hk, hmem⟩

theorem survey_any_order_steep :
    steep.preflight cell = .ok () ∧ steep.RunsThrough cell ⟨5, some 4⟩ .willing ∧
    ∃ m : Atlas ℚ, (∃ s', words.survey steep cell ⟨5, some 4⟩ .willing .never (.new () false) =
        some (.ok m, s')) ∧
      ∀ answer, words.MayAnswer steep cell ⟨5, some 4⟩ .willing answer ↔ answer = .ok m := by
  have hrun : steep.preflight cell = .ok () := by decide +kernel
  have hends : steep.RunsThrough cell ⟨5, some 4⟩ .willing :=
    steep.runsThrough_of_chain cell _ _ hrun (by decide +kernel) _ _ rfl (le_refl 0)
      (by norm_num [solutionSlack]) ⟨by decide, by decide, by decide⟩ (by decide +kernel)
      (by decide +kernel)
  obtain ⟨m, hm, hany, -⟩ := survey_any_order steep cell ⟨5, some 4⟩ .willing hrun hends
    (fun b => (steep.labelGrid cell b (.new () false)).1)
    (fun k hk b hb s r hr => by
      rw [sound_words.labelGrid _ _ _ _ r hr]
      exact labelGrid_of_isPure _ (Labeler.ofFn_isPure _ _) cell b s _) (.new () false)
  exact ⟨hrun, hends, m, hm, hany⟩

/-- A pipeline on the widest grid whose labels are all positive. -/
def allPositive : Pipeline Float Unit :=
  onGrid (.chain { TraceConfig.default with numPoints := 2 } .default)
    (.ofFn "all" fun _ => true) Words.wide

/-- The search for straight boundaries overflows after the second one, so that there is no atlas. -/
theorem survey_overflows_wide :
    allPositive.preflight Words.wide = .ok () ∧ 0 ≤ Words.wide.kinkLimit ∧
    (∀ b s t, (allPositive.labelGrid Words.wide b s).1 =
      (allPositive.labelGrid Words.wide b t).1) ∧
    words.survey allPositive Words.wide ⟨0, none⟩ .willing .never (.new () false) = none := by
  refine ⟨by decide +kernel, Nat.zero_le _,
    fun b s t => labelGrid_of_isPure _ (Labeler.ofFn_isPure _ _) _ b s t, ?_⟩
  rw [← Option.isNone_iff_eq_none]
  decide +kernel

end Pipeline

end BoundaryAtlas
