import BoundaryAtlas.Proofs.Atlas.AnyOrder
import BoundaryAtlas.Proofs.Atlas.Conservation
import BoundaryAtlas.Proofs.Grid.Zigzag

/-!
# Surveys that have an atlas

In machine words a survey has an atlas only if all its labels were made and all its outcomes were
counted. So the kinks of its boundaries can be counted again, and there are not many passes: with
every two kinks there are twice as many boundaries to be counted.
-/

namespace BoundaryAtlas

variable {α σ : Type}

namespace Machine

variable [Scalar α]

/-- The machine labels the boundary of the outcome with this outcome, for some answer of the solver
and in some session. -/
def Brings (M : Machine Option) (p : Pipeline α σ) (d : Grid α) (o : Outcome α) : Prop :=
  ∃ solve s s', M.labelGrid (p.solvedBy solve) d o.boundary s = some (o, s')

/-- Outcomes that workers may bring for a pass, in any order, if the solver answers each boundary in
a way of its own. -/
def CollectsTimed (M : Machine Option) (p : Pipeline α σ) (d : Grid α) (kinks : Nat)
    (outcomes : List (Outcome α)) : Prop :=
  (∃ search ∈ M.search d kinks, ∃ listed ∈ M.toList search,
    (outcomes.map Outcome.boundary).Perm listed) ∧
  ∀ o ∈ outcomes, M.Brings p d o

/-- Atlases that a survey may give if the solver answers each boundary in a way of its own. -/
def MayGiveTimed (M : Machine Option) (p : Pipeline α σ) (d : Grid α) (config : SurveyConfig)
    (m : Atlas α) : Prop :=
  p.preflight d = .ok () ∧ ∃ reports : Nat → List (Outcome α),
    (∀ k ≤ Pipeline.lastPass d config, M.CollectsTimed p d k (reports k)) ∧
    m ∈ M.addPasses reports (Pipeline.lastPass d config + 1) 0 (.empty d config.maxKinks)

/-! ## Labels and counts -/

theorem Sound.brings {M : Machine Option} (hM : M.Sound) {p : Pipeline α σ} {d : Grid α}
    {o : Outcome α} (h : M.Brings p d o) {r : Record} (hr : o.record? = some r) :
    r = ⟨o.boundary, o.boundary.kinks, r.label⟩ := by
  obtain ⟨solve, s, s', hlabel⟩ := h
  have ho : o = ((p.solvedBy solve).labelGrid d o.boundary s).1 :=
    congrArg Prod.fst (hM.labelGrid _ d o.boundary s _ hlabel)
  rw [ho] at hr
  exact (p.solvedBy solve).record?_labelGrid d o.boundary s r hr

theorem Brings.kinks_isSome {M : Machine Option} {p : Pipeline α σ} {d : Grid α} {o : Outcome α}
    (h : M.Brings p d o) (hlabel : o.label? ≠ none) : (M.kinks o.boundary).isSome = true := by
  obtain ⟨solve, s, s', h⟩ := h
  generalize o.boundary = b at h
  unfold labelGrid at h
  cases hplace : b.toBoundary d with
  | error fault =>
    simp only [hplace, Option.pure_def, Option.some.injEq, Prod.mk.injEq] at h
    rw [← h.1] at hlabel
    exact absurd rfl hlabel
  | ok boundary =>
    simp only [hplace] at h
    obtain ⟨⟨result, s''⟩, -, h⟩ := Option.bind_eq_some_iff.mp h
    rcases result with fault | ⟨trace, verdict⟩
    · simp only [Option.pure_def, Option.some.injEq, Prod.mk.injEq] at h
      rw [← h.1] at hlabel
      exact absurd rfl hlabel
    · obtain ⟨n, hn, -⟩ := Option.bind_eq_some_iff.mp h
      exact Option.isSome_iff_exists.mpr ⟨n, hn⟩

theorem upTo_of_mem_tally {t t' : Tally} (h : t' ∈ words.tally t) : UpTo (2 ^ 64 - 1) t' := by
  have hsize : ∀ {n a : Nat}, words.size n = some a → a ≤ 2 ^ 64 - 1 := by
    intro n a ha
    have hlt : n < 2 ^ 64 := lt_of_mem_below ha
    rw [below_agrees _ _ a ha]
    omega
  obtain ⟨labeled, hlabeled, h⟩ := Option.bind_eq_some_iff.mp h
  obtain ⟨positives, hpositives, h⟩ := Option.bind_eq_some_iff.mp h
  obtain ⟨infeasible, hinfeasible, h⟩ := Option.bind_eq_some_iff.mp h
  obtain ⟨timedOut, htimedOut, h⟩ := Option.bind_eq_some_iff.mp h
  obtain ⟨invalid, hinvalid, h⟩ := Option.bind_eq_some_iff.mp h
  obtain rfl := Option.some.inj h
  exact ⟨hsize hlabeled, hsize hpositives, hsize hinfeasible, hsize htimedOut, hsize hinvalid⟩

omit [Scalar α] in
theorem upTo_of_foldlM_note {outcomes : List (Outcome α)} {t t' : Tally} (h : UpTo (2 ^ 64 - 1) t)
    (ht' : t' ∈ outcomes.foldlM words.note t) : UpTo (2 ^ 64 - 1) t' := by
  induction outcomes generalizing t with
  | nil =>
    obtain rfl := Option.some.inj ht'
    exact h
  | cons o outcomes ih =>
    rw [List.foldlM_cons] at ht'
    obtain ⟨t₁, ht₁, ht'⟩ := Option.bind_eq_some_iff.mp ht'
    exact ih (upTo_of_mem_tally ht₁) ht'

omit [Scalar α] in
theorem length_lt_of_addPass {m m' : Atlas α} {kinks : Nat} {outcomes : List (Outcome α)}
    (h : words.addPass m kinks outcomes = some m') : outcomes.length < 2 ^ 66 := by
  obtain ⟨t, ht, -⟩ := Option.bind_eq_some_iff.mp h
  have hzero : UpTo (2 ^ 64 - 1) .zero := by constructor <;> exact Nat.zero_le _
  have hbound := upTo_of_foldlM_note hzero ht
  have hsound : t = outcomes.foldl Tally.note .zero := by
    rw [agrees_foldlM (g := fun t o => ideal.note t o) sound_words.note outcomes .zero t ht,
      List.idRun_foldlM]
    rfl
  have hcounts := (Tally.counts_foldl outcomes).all
  rw [← hsound] at hcounts
  have := hbound.labeled
  have := hbound.infeasible
  have := hbound.timedOut
  have := hbound.invalid
  omega

theorem visitUpTo_invariant {β : Type} {M : Machine Option} {f : β → GridBoundary → Option (Bool × β)}
    {I : β → Prop} (hf : ∀ state b r, I state → f state b = some r → I r.2) {limit : Nat}
    {s s' : Search} {state state' : β} (hstate : I state)
    (h : M.visitUpTo f limit s state = some (state', s')) : I state' := by
  induction limit generalizing s state with
  | zero =>
    obtain ⟨rfl, -⟩ := Prod.mk.inj (Option.some.inj h)
    exact hstate
  | succ limit ih =>
    obtain ⟨⟨found, after⟩, -, h⟩ := Option.bind_eq_some_iff.mp h
    cases found with
    | none =>
      obtain ⟨rfl, -⟩ := Prod.mk.inj (Option.some.inj h)
      exact hstate
    | some b =>
      obtain ⟨⟨goesOn, next⟩, hvisit, h⟩ := Option.bind_eq_some_iff.mp h
      have hnext : I next := hf state b _ hstate hvisit
      cases goesOn with
      | false =>
        obtain ⟨rfl, -⟩ := Prod.mk.inj (Option.some.inj h)
        exact hnext
      | true => exact ih hnext h

end Machine

open Machine

/-! ## Reports of a survey -/

namespace Pipeline

variable [Scalar α] {p : Pipeline α σ} {d : Grid α} {config : SurveyConfig}

/-- The outcomes of a pass that was added to an atlas in machine words. -/
structure Finished (p : Pipeline α σ) (d : Grid α) (kinks : Nat) (outcomes : List (Outcome α)) :
    Prop where
  report : IsReport d kinks outcomes
  brings : ∀ o ∈ outcomes, words.Brings p d o
  length_lt : outcomes.length < 2 ^ 66

/-- The atlas was made of the reports of finished passes. -/
def IsFinished (p : Pipeline α σ) (d : Grid α) (config : SurveyConfig) (m : Atlas α) : Prop :=
  ∃ reports : Nat → List (Outcome α), (∀ k ≤ lastPass d config, p.Finished d k (reports k)) ∧
    m = (Atlas.empty d config.maxKinks).addPasses reports (lastPass d config + 1) 0

theorem isReport_of_collectsTimed {kinks : Nat} {outcomes : List (Outcome α)}
    (h : words.CollectsTimed p d kinks outcomes) : IsReport d kinks outcomes := by
  obtain ⟨⟨search, hsearch, listed, hlisted, hperm⟩, hbrings⟩ := h
  obtain rfl : search = Search.new d kinks := sound_words.search d kinks search hsearch
  obtain rfl : listed = (Search.new d kinks).toList := sound_words.toList _ _ hlisted
  exact ⟨hperm, fun o ho r hr => sound_words.brings (hbrings o ho) hr⟩

omit [Scalar α] in
theorem length_lt_of_addPasses {reports : Nat → List (Outcome α)} {count kinks : Nat}
    {m m' : Atlas α} (h : words.addPasses reports count kinks m = some m') :
    (∀ k, kinks ≤ k → k < kinks + count → (reports k).length < 2 ^ 66) ∧
      m' = m.addPasses reports count kinks := by
  induction count generalizing kinks m with
  | zero => exact ⟨fun k hk hk' => absurd hk' (by omega), (Option.some.inj h).symm⟩
  | succ count ih =>
    obtain ⟨m₁, hm₁, h⟩ := Option.bind_eq_some_iff.mp h
    obtain ⟨hlengths, rfl⟩ := ih h
    refine ⟨fun k hk hk' => ?_, ?_⟩
    · rcases Nat.eq_or_lt_of_le hk with rfl | hk
      · exact length_lt_of_addPass hm₁
      · exact hlengths k hk (by omega)
    · rw [Atlas.addPasses, sound_words.addPass m kinks _ m₁ hm₁]

theorem isFinished_of_mayGiveTimed {m : Atlas α} (h : words.MayGiveTimed p d config m) :
    p.IsFinished d config m := by
  obtain ⟨-, reports, hreports, hm⟩ := h
  obtain ⟨hlengths, hatlas⟩ := length_lt_of_addPasses hm
  refine ⟨reports, fun k hk => ⟨?_, (hreports k hk).2, ?_⟩, hatlas⟩
  · exact isReport_of_collectsTimed (hreports k hk)
  · exact hlengths k (Nat.zero_le k) (by omega)

/-! ## One worker -/

theorem brings_of_pass {stop : StopSignal α σ} {kinks : Nat} {s s' : Session α σ}
    {report : PassReport α} (h : words.pass p d stop kinks s = some (report, s')) :
    ∀ o ∈ report.outcomes, words.Brings p d o := by
  obtain ⟨search, -, h⟩ := Option.bind_eq_some_iff.mp h
  obtain ⟨⟨outcomes, s₁⟩, hvisit, h⟩ := Option.bind_eq_some_iff.mp h
  obtain ⟨rfl, -⟩ := Prod.mk.inj (Option.some.inj h)
  obtain ⟨⟨state, after⟩, hvisit, hstate⟩ := Option.bind_eq_some_iff.mp hvisit
  obtain rfl : state = (outcomes, s₁) := Option.some.inj hstate
  refine visitUpTo_invariant (I := fun state => ∀ o ∈ state.1.toList, words.Brings p d o)
    (fun state b r hall hr => ?_) (by simp) hvisit
  unfold Machine.passStep at hr
  dsimp only at hr
  split at hr
  · obtain rfl := Option.some.inj hr
    exact hall
  · obtain ⟨⟨o, s₂⟩, hlabel, hr⟩ := Option.bind_eq_some_iff.mp hr
    obtain rfl := Option.some.inj hr
    have hb : o.boundary = b := by
      have ho : (o, s₂) = p.labelGrid d b state.2 := sound_words.labelGrid p d b state.2 _ hlabel
      rw [show o = (p.labelGrid d b state.2).1 from congrArg Prod.fst ho, boundary_labelGrid]
    intro o' ho'
    rw [Array.toList_push, List.mem_append, List.mem_singleton] at ho'
    rcases ho' with ho' | rfl
    · exact hall o' ho'
    · exact ⟨p.synth.solve, state.2, s₂, by rw [hb]; exact hlabel⟩

theorem finished_of_passes {stop : StopSignal α σ} {count kinks : Nat} {m m' : Atlas α}
    {s s' : Session α σ} (h : words.passes p d stop count kinks m s = some (.ok m', s')) :
    ∃ reports : Nat → List (Outcome α),
      (∀ k, kinks ≤ k → k < kinks + count → p.Finished d k (reports k)) ∧
      m' = m.addPasses reports count kinks := by
  induction count generalizing kinks m s with
  | zero =>
    obtain ⟨rfl, -⟩ : m = m' ∧ s = s' := by simpa [Machine.passes] using h
    exact ⟨fun _ => [], fun k hk hk' => absurd hk' (by omega), rfl⟩
  | succ count ih =>
    obtain ⟨⟨report, s₁⟩, hpass, h⟩ := Option.bind_eq_some_iff.mp h
    dsimp only at h
    split at h
    · cases h
    rename_i hcancelled
    obtain ⟨m₁, hm₁, h⟩ := Option.bind_eq_some_iff.mp h
    obtain ⟨reports, hreports, rfl⟩ := ih h
    have hsound : (report, s₁) = p.pass d stop kinks s := sound_words.pass p d stop kinks s _ hpass
    have hreport : report = (p.pass d stop kinks s).1 := congrArg Prod.fst hsound
    have hfinished : p.Finished d kinks report.outcomes := by
      refine ⟨?_, brings_of_pass hpass, length_lt_of_addPass hm₁⟩
      rw [hreport] at hcancelled ⊢
      exact (p.collects_of_pass d stop kinks s (Bool.eq_false_iff.mpr hcancelled)).isReport
    refine ⟨Function.update reports kinks report.outcomes, fun k hk hk' => ?_, ?_⟩
    · rcases Nat.eq_or_lt_of_le hk with rfl | hk
      · rwa [Function.update_self]
      · rw [Function.update_of_ne (by omega)]
        exact hreports k hk (by omega)
    · rw [Atlas.addPasses, Function.update_self, Atlas.addPasses_update _ _ _ _ _ _ (by omega),
        sound_words.addPass m kinks _ m₁ hm₁]

theorem isFinished_of_survey {pool : WorkerPool} {stop : StopSignal α σ} {s s' : Session α σ}
    {m : Atlas α} (h : words.survey p d config pool stop s = some (.ok m, s')) :
    p.preflight d = .ok () ∧ p.IsFinished d config m := by
  unfold Machine.survey at h
  cases hrun : p.preflight d with
  | error fault => simp [hrun] at h
  | ok _ =>
    cases hpool : p.startWorkers config pool with
    | error fault => simp [hrun, hpool] at h
    | ok _ =>
      simp only [hrun, hpool] at h
      obtain ⟨reports, hreports, hatlas⟩ := finished_of_passes h
      refine ⟨rfl, reports, fun k hk => hreports k (Nat.zero_le k) ?_, hatlas⟩
      rw [lastPass] at hk
      omega

/-! ## What an atlas tells -/

namespace IsFinished

variable {m : Atlas α} (h : p.IsFinished d config m)

include h

theorem eq_ofOutcomes : ∃ reports : Nat → List (Outcome α),
    m = .ofOutcomes d config (Atlas.reported reports) := by
  obtain ⟨reports, hreports, rfl⟩ := h
  exact ⟨reports, Atlas.addPasses_eq_ofOutcomes d config reports fun k hk => (hreports k hk).report⟩

theorem records_eq : words.records m = some m.records := by
  refine (sound_words.records m).eq_some ((records_isSome_iff m).mpr fun b hb => ?_)
  obtain ⟨reports, hreports, rfl⟩ := h
  obtain ⟨label, hlabel⟩ := Option.ne_none_iff_exists'.mp hb
  obtain ⟨k, hk, o, ho, rfl, holabel⟩ := (Atlas.get?_addPasses_eq_some_iff d config reports
    (fun k hk => (hreports k hk).report) b label).mp hlabel
  exact ((hreports k hk).brings o ho).kinks_isSome (by simp [holabel])

/-- A pass with as many kinks as there are words of 32 bits has too many boundaries to be counted. -/
theorem lastPass_lt (hy : 1 ≤ d.numY) : lastPass d config < 2 ^ 32 := by
  obtain ⟨reports, hreports, -⟩ := h
  by_contra hge
  have hfinished := hreports _ (le_refl _)
  have hlength := hfinished.report.boundaries.length_eq
  rw [List.length_map] at hlength
  have hmany : 2 ^ 66 ≤ (Search.new d (lastPass d config)).toList.length :=
    GridBoundary.two_pow_le_length_toList d hy (le_kinkLimit_of_le_lastPass (le_refl _)) (by omega)
  exact absurd hfinished.length_lt (by omega)

theorem kinks_lt (hy : 1 ≤ d.numY) : ∀ r ∈ m.records, r.kinks < 2 ^ 32 := by
  intro r hr
  have hlast := h.lastPass_lt hy
  obtain ⟨reports, rfl⟩ := h.eq_ofOutcomes
  have := Atlas.kinks_lt_of_mem_records d config _ (Atlas.boundary_reported reports) r hr
  omega

end IsFinished

end Pipeline

end BoundaryAtlas
