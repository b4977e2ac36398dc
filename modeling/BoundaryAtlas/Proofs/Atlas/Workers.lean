import BoundaryAtlas.Proofs.Atlas.Stopping

/-!
# Workers and the token

Workers take the boundaries of a pass, and look at a token before each of them. A pass is over when
none of its boundaries is waiting or being labeled, and only then is the token looked at again and
the pass added to the atlas. The token may be set at any moment, and is never unset. So long as it
is not set, no boundary is lost. All this is about surveys in machine words that come to their end.
-/

namespace BoundaryAtlas

open Machine

variable {α σ : Type}

/-- A survey between two steps of its workers. -/
structure SurveyState (α σ : Type) where
  kinks : Nat
  /-- The boundaries of the pass that no worker has come to. -/
  waiting : List GridBoundary
  /-- The boundaries that are being labeled. -/
  taken : List GridBoundary
  /-- The outcomes of the pass so far. -/
  outcomes : List (Outcome α)
  /-- The atlas of the passes before. -/
  atlas : Atlas α
  session : Session α σ
  /-- The token. -/
  cancelled : Bool

theorem Atlas.addPasses_succ (reports : Nat → List (Outcome α)) (count kinks : Nat) (m : Atlas α) :
    m.addPasses reports (count + 1) kinks =
      (m.addPasses reports count kinks).addPass (kinks + count) (reports (kinks + count)) := by
  induction count generalizing kinks m with
  | zero => rfl
  | succ count ih =>
    rw [addPasses, ih, addPasses, show kinks + 1 + count = kinks + (count + 1) by omega]

namespace Pipeline

variable [Scalar α] (p : Pipeline α σ) (d : Grid α) (config : SurveyConfig) (pool : WorkerPool)

/-! ## Steps -/

/-- The boundaries of a pass. -/
def Lists (kinks : Nat) (listed : List GridBoundary) : Prop :=
  ∃ search ∈ words.search d kinks, listed ∈ words.toList search

/-- A survey before its first step. -/
def Begins (s : Session α σ) (cancelled : Bool) (q : SurveyState α σ) : Prop :=
  ∃ listed, Lists d 0 listed ∧ q = ⟨0, listed, [], [], .empty d config.maxKinks, s, cancelled⟩

/-- One step of a survey. If the labeler is safe for workers, then they take boundaries in any order
and label them in whatever session they find. If it is not, then there is one boundary at a time, in
order, and all are labeled in one session. -/
inductive Step : SurveyState α σ → SurveyState α σ → Prop
  /-- A boundary is taken if the token is not set. -/
  | take (q : SurveyState α σ) (before after : List GridBoundary) (b : GridBoundary)
      (hwaiting : q.waiting = before ++ b :: after) (hunset : q.cancelled = false)
      (hturn : p.labeler.parallelSafe = true ∨ before = [] ∧ q.taken = []) :
      Step q { q with waiting := before ++ after, taken := q.taken ++ [b] }
  /-- If the token is set, then workers leave out each boundary that they come to. -/
  | leave (q : SurveyState α σ) (before after : List GridBoundary) (b : GridBoundary)
      (hsafe : p.labeler.parallelSafe = true) (hwaiting : q.waiting = before ++ b :: after)
      (hset : q.cancelled = true) :
      Step q { q with waiting := before ++ after }
  /-- If the token is set, then a pass in order breaks off. -/
  | breakOff (q : SurveyState α σ) (hsafe : p.labeler.parallelSafe = false)
      (hwaiting : q.waiting ≠ []) (htaken : q.taken = []) (hset : q.cancelled = true) :
      Step q { q with waiting := [] }
  /-- A boundary that was taken is labeled, whether or not the token has been set since. -/
  | finish (q : SurveyState α σ) (before after : List GridBoundary) (b : GridBoundary)
      (s s' : Session α σ) (outcome : Outcome α) (htaken : q.taken = before ++ b :: after)
      (hsession : p.labeler.parallelSafe = true ∨ s = q.session)
      (hlabel : words.labelGrid p d b s = some (outcome, s')) :
      Step q { q with
        taken := before ++ after
        outcomes := q.outcomes ++ [outcome]
        session := s' }
  /-- After a pass, the next one begins if the token is not set. -/
  | next (q : SurveyState α σ) (report : List (Outcome α)) (m : Atlas α)
      (listed : List GridBoundary) (hwaiting : q.waiting = []) (htaken : q.taken = [])
      (hunset : q.cancelled = false) (hreport : report.Perm q.outcomes)
      (hadd : words.addPass q.atlas q.kinks report = some m)
      (hmore : q.kinks < lastPass d config) (hlisted : Lists d (q.kinks + 1) listed) :
      Step q { q with
        kinks := q.kinks + 1
        waiting := listed
        outcomes := []
        atlas := m }
  /-- The token is set. -/
  | cancel (q : SurveyState α σ) (hunset : q.cancelled = false) :
      Step q { q with cancelled := true }

/-- Any number of steps. -/
abbrev Steps : SurveyState α σ → SurveyState α σ → Prop :=
  Relation.ReflTransGen (p.Step d config)

/-- The survey is over, and this is its answer. -/
def Ends (q : SurveyState α σ) (answer : Except (Fault α) (Atlas α)) : Prop :=
  q.waiting = [] ∧ q.taken = [] ∧
    if q.cancelled then answer = .error .cancelled
    else q.kinks = lastPass d config ∧ ∃ (report : List (Outcome α)) (m : Atlas α),
      report.Perm q.outcomes ∧ words.addPass q.atlas q.kinks report = some m ∧ answer = .ok m

variable {p d config pool} {s : Session α σ} {q q' : SurveyState α σ}

omit [Scalar α] in
theorem Lists.eq {kinks : Nat} {listed : List GridBoundary} (h : Lists d kinks listed) :
    listed = (Search.new d kinks).toList := by
  obtain ⟨search, hsearch, hlisted⟩ := h
  obtain rfl : search = Search.new d kinks := sound_words.search d kinks search hsearch
  exact sound_words.toList _ _ hlisted

theorem RunsThrough.lists (h : p.RunsThrough d config pool) {k : Nat} (hk : k ≤ lastPass d config) :
    Lists d k (Search.new d k).toList :=
  ⟨_, h.search_eq hk, h.fits.toList_eq⟩

theorem Step.cancelled (h : p.Step d config q q') (hset : q.cancelled = true) :
    q'.cancelled = true := by
  cases h <;> simp_all

theorem Steps.cancelled (h : p.Steps d config q q') (hset : q.cancelled = true) :
    q'.cancelled = true := by
  induction h with
  | refl => exact hset
  | tail _ hstep ih => exact hstep.cancelled ih

/-! ## The passes of a survey that is not cancelled -/

/-- No boundary is lost: those that are done have an outcome, and the others of the pass are taken
or waiting. The passes before are in the atlas. -/
structure Keeps (p : Pipeline α σ) (d : Grid α) (config : SurveyConfig) (q : SurveyState α σ)
    (done : List GridBoundary) (reports : Nat → List (Outcome α)) : Prop where
  pass : (done ++ q.taken ++ q.waiting).Perm (Search.new d q.kinks).toList
  labeled : List.Forall₂ (fun b outcome => ∃ s, outcome = (p.labelGrid d b s).1) done q.outcomes
  collected : ∀ k < q.kinks, p.Collects d k (reports k)
  atlas : q.atlas = (Atlas.empty d config.maxKinks).addPasses reports q.kinks 0

/-- All goes in order. -/
structure KeepsOrder (p : Pipeline α σ) (d : Grid α) (s : Session α σ) (q : SurveyState α σ)
    (done : List GridBoundary) (reports : Nat → List (Outcome α)) : Prop where
  pass : done ++ q.taken ++ q.waiting = (Search.new d q.kinks).toList
  taken : q.taken.length ≤ 1
  labeled : p.labelAll d done (p.sessionAfter d s q.kinks) = (q.outcomes.toArray, q.session)
  inOrder : ∀ k < q.kinks, (reports k).Perm (p.reportInOrder d s k)

/-- What holds in each state that a survey comes to. -/
structure Inv (p : Pipeline α σ) (d : Grid α) (config : SurveyConfig) (s : Session α σ)
    (q : SurveyState α σ) : Prop where
  kinks_le : q.kinks ≤ lastPass d config
  listed : ∀ b ∈ q.taken ++ q.waiting, b ∈ (Search.new d q.kinks).toList
  keeps : q.cancelled = false → ∃ done reports, p.Keeps d config q done reports ∧
    (p.labeler.parallelSafe = false → p.KeepsOrder d s q done reports)

theorem Begins.inv {token : Bool} (h : Begins d config s token q) : p.Inv d config s q := by
  obtain ⟨listed, hlisted, rfl⟩ := h
  obtain rfl := hlisted.eq
  refine ⟨Nat.zero_le _, fun b hb => hb, fun _ => ⟨[], fun _ => [], ?_, fun _ => ?_⟩⟩
  · exact ⟨.refl _, .nil, fun k hk => absurd hk (Nat.not_lt_zero k), rfl⟩
  · exact ⟨rfl, Nat.zero_le _, rfl, fun k hk => absurd hk (Nat.not_lt_zero k)⟩

theorem Collects.of_perm {kinks : Nat} {order : List GridBoundary}
    {outcomes report : List (Outcome α)} (horder : order.Perm (Search.new d kinks).toList)
    (hall : List.Forall₂ (fun b outcome => ∃ s, outcome = (p.labelGrid d b s).1) order outcomes)
    (hreport : report.Perm outcomes) : p.Collects d kinks report := by
  obtain ⟨order', hall', hperm⟩ := List.perm_comp_forall₂ hreport hall.flip
  exact ⟨order', hperm.trans horder, hall'.flip⟩

theorem Inv.add_pass (h : p.Inv d config s q) (hwaiting : q.waiting = []) (htaken : q.taken = [])
    (hunset : q.cancelled = false) {report : List (Outcome α)} (hreport : report.Perm q.outcomes) :
    ∃ reports : Nat → List (Outcome α),
      (∀ k < q.kinks + 1, p.Collects d k (reports k)) ∧
      q.atlas.addPass q.kinks report =
        (Atlas.empty d config.maxKinks).addPasses reports (q.kinks + 1) 0 ∧
      (p.labeler.parallelSafe = false → q.session = p.sessionAfter d s (q.kinks + 1) ∧
        ∀ k < q.kinks + 1, (reports k).Perm (p.reportInOrder d s k)) := by
  obtain ⟨done, reports, hkeeps, horder⟩ := h.keeps hunset
  refine ⟨Function.update reports q.kinks report, ?_, ?_, fun hsafe => ?_⟩
  · intro k hk
    rcases Nat.lt_succ_iff_lt_or_eq.mp hk with hlt | rfl
    · rw [Function.update_of_ne hlt.ne]
      exact hkeeps.collected k hlt
    · rw [Function.update_self]
      have hpass := hkeeps.pass
      rw [hwaiting, htaken, List.append_nil, List.append_nil] at hpass
      exact .of_perm hpass hkeeps.labeled hreport
  · rw [Atlas.addPasses_succ, Nat.zero_add, Function.update_self, hkeeps.atlas]
    congr 1
    refine Atlas.addPasses_congr _ _ _ _ _ fun k hk m => ?_
    rw [Function.update_of_ne (by omega)]
  · have hpass := (horder hsafe).pass
    rw [hwaiting, htaken, List.append_nil, List.append_nil] at hpass
    have hlabeled := (horder hsafe).labeled
    rw [hpass] at hlabeled
    refine ⟨by rw [sessionAfter_succ, hlabeled], fun k hk => ?_⟩
    rcases Nat.lt_succ_iff_lt_or_eq.mp hk with hlt | rfl
    · rw [Function.update_of_ne hlt.ne]
      exact (horder hsafe).inOrder k hlt
    · rw [Function.update_self, reportInOrder, hlabeled]
      exact hreport

section Boundaries

variable {done before after : List GridBoundary} {reports : Nat → List (Outcome α)}
  {b : GridBoundary}

theorem Keeps.take (h : p.Keeps d config q done reports)
    (hwaiting : q.waiting = before ++ b :: after) :
    p.Keeps d config { q with waiting := before ++ after, taken := q.taken ++ [b] } done
      reports where
  pass := by
    have hpass := h.pass
    rw [hwaiting] at hpass
    refine .trans ?_ hpass
    simp only [List.append_assoc, List.singleton_append]
    exact .append_left _ (.append_left _ List.perm_middle.symm)
  labeled := h.labeled
  collected := h.collected
  atlas := h.atlas

theorem KeepsOrder.take (h : p.KeepsOrder d s q done reports) (hwaiting : q.waiting = b :: after)
    (htaken : q.taken = []) :
    p.KeepsOrder d s { q with waiting := after, taken := q.taken ++ [b] } done reports where
  pass := by simpa [hwaiting, htaken] using h.pass
  taken := by simp [htaken]
  labeled := h.labeled
  inOrder := h.inOrder

theorem Keeps.finish (h : p.Keeps d config q done reports)
    (htaken : q.taken = before ++ b :: after) (s : Session α σ) :
    p.Keeps d config { q with
      taken := before ++ after
      outcomes := q.outcomes ++ [(p.labelGrid d b s).1]
      session := (p.labelGrid d b s).2 } (done ++ [b]) reports where
  pass := by
    have hpass := h.pass
    rw [htaken] at hpass
    refine .trans ?_ hpass
    simp only [List.append_assoc, List.cons_append, List.nil_append]
    exact .append_left _ List.perm_middle.symm
  labeled := List.rel_append h.labeled (.cons ⟨s, rfl⟩ .nil)
  collected := h.collected
  atlas := h.atlas

theorem KeepsOrder.finish (h : p.KeepsOrder d s q done reports)
    (htaken : q.taken = before ++ b :: after) :
    p.KeepsOrder d s { q with
      taken := before ++ after
      outcomes := q.outcomes ++ [(p.labelGrid d b q.session).1]
      session := (p.labelGrid d b q.session).2 } (done ++ [b]) reports := by
  -- No more than one boundary is taken, so that `b` is the only one.
  obtain ⟨rfl, rfl⟩ : before = [] ∧ after = [] := by
    have hlength := h.taken
    rw [htaken] at hlength
    simpa [List.length_append, ← Nat.add_assoc] using hlength
  refine ⟨by simpa [htaken] using h.pass, Nat.zero_le _, ?_, h.inOrder⟩
  rw [labelAll_append, h.labeled, labelAll_cons]
  simp [labelAll_def]

end Boundaries

/-- Once the token is set, no more is claimed than that there are no further passes. -/
theorem Inv.step (h : p.Inv d config s q) (hstep : p.Step d config q q') :
    p.Inv d config s q' := by
  cases hstep with
  | take before after b hwaiting hunset hturn =>
    refine ⟨h.kinks_le, fun c hc => h.listed c ?_, fun _ => ?_⟩
    · rw [hwaiting]
      simp only [List.mem_append, List.mem_cons, List.not_mem_nil, or_false] at hc ⊢
      tauto
    obtain ⟨done, reports, hkeeps, horder⟩ := h.keeps hunset
    refine ⟨done, reports, hkeeps.take hwaiting, fun hsafe => ?_⟩
    obtain ⟨rfl, htaken⟩ : before = [] ∧ q.taken = [] := by simpa [hsafe] using hturn
    exact (horder hsafe).take hwaiting htaken
  | finish before after b s₁ s₂ outcome htaken hsession hlabel =>
    obtain ⟨rfl, rfl⟩ := Prod.mk.inj (sound_words.labelGrid p d b s₁ _ hlabel)
    refine ⟨h.kinks_le, fun c hc => h.listed c ?_, fun hunset => ?_⟩
    · rw [htaken]
      simp only [List.mem_append, List.mem_cons] at hc ⊢
      tauto
    obtain ⟨done, reports, hkeeps, horder⟩ := h.keeps hunset
    refine ⟨done ++ [b], reports, hkeeps.finish htaken s₁, fun hsafe => ?_⟩
    obtain rfl : s₁ = q.session := by simpa [hsafe] using hsession
    exact (horder hsafe).finish htaken
  | next report m listed hwaiting htaken hunset hreport hadd hmore hlisted =>
    obtain rfl := hlisted.eq
    obtain rfl := sound_words.addPass q.atlas q.kinks report m hadd
    refine ⟨hmore, fun c hc => by simpa [htaken] using hc, fun _ => ?_⟩
    obtain ⟨reports, hcollected, hatlas, horder⟩ := h.add_pass hwaiting htaken hunset hreport
    refine ⟨[], reports, ⟨by simp [htaken], .nil, hcollected, hatlas⟩, fun hsafe => ?_⟩
    obtain ⟨hsession, hinOrder⟩ := horder hsafe
    exact ⟨by simp [htaken], by simp [htaken], by rw [hsession]; rfl, hinOrder⟩
  | leave before after b hsafe hwaiting hset =>
    refine ⟨h.kinks_le, fun c hc => h.listed c ?_, fun hunset => by simp_all⟩
    rw [hwaiting]
    simp only [List.mem_append, List.mem_cons] at hc ⊢
    tauto
  | breakOff hsafe hwaiting htaken hset =>
    refine ⟨h.kinks_le, fun c hc => h.listed c ?_, fun hunset => by simp_all⟩
    exact List.mem_append_left _ (by simpa using hc)
  | cancel hunset => exact ⟨h.kinks_le, h.listed, fun hset => by simp at hset⟩

theorem Inv.steps (h : p.Inv d config s q) (hsteps : p.Steps d config q q') :
    p.Inv d config s q' := by
  induction hsteps with
  | refl => exact h
  | tail _ hstep ih => exact ih.step hstep

/-! ## How surveys end -/

theorem atlasInOrder_eq_of_perm (reports : Nat → List (Outcome α))
    (h : ∀ k ≤ lastPass d config, (reports k).Perm (p.reportInOrder d s k)) :
    (Atlas.empty d config.maxKinks).addPasses reports (lastPass d config + 1) 0 =
      p.atlasInOrder d config s := by
  refine Atlas.addPasses_congr _ _ _ _ _ fun k hk m => ?_
  have hinOrder := (p.isReport_reportInOrder d s k).perm
  rw [Atlas.addPass_perm _ (Atlas.boundary_reported _) k m _ _ ((h k (by omega)).trans hinOrder),
    Atlas.addPass_perm _ (Atlas.boundary_reported _) k m _ _ hinOrder]

theorem Inv.ends (h : p.Inv d config s q) (hrun : p.preflight d = .ok ())
    (hends : p.RunsThrough d config pool) {answer : Except (Fault α) (Atlas α)}
    (hover : Ends d config q answer) (hunset : q.cancelled = false) :
    p.MayEnd d config pool s (answer, q.session) ∧
      (p.labeler.IsPure → ∃ s', words.survey p d config pool .never s = some (answer, s')) := by
  obtain ⟨hwaiting, htaken, hanswer⟩ := hover
  rw [hunset, if_neg Bool.false_ne_true] at hanswer
  obtain ⟨hlast, report, m, hreport, hadd, rfl⟩ := hanswer
  obtain rfl := sound_words.addPass q.atlas q.kinks report m hadd
  obtain ⟨reports, hcollected, hatlas, horder⟩ := h.add_pass hwaiting htaken hunset hreport
  rw [hatlas, hlast]
  rw [hlast] at hcollected horder
  rw [hends.survey_eq]
  cases hsafe : p.labeler.parallelSafe with
  | true =>
    have hanswer : p.MayAnswer d config (.ok ((Atlas.empty d config.maxKinks).addPasses reports
        (lastPass d config + 1) 0)) := by
      rw [MayAnswer, hrun]
      exact ⟨reports, fun k hk => hcollected k (by omega), rfl⟩
    refine ⟨?_, fun hpure => ?_⟩
    · rw [MayEnd, hsafe, if_pos rfl]
      exact (hends.mayAnswer_iff hrun _).mpr hanswer
    · have hgives := p.gives_of_isPure hpure d config hrun s
      exact ⟨_, by rw [(hgives.2 _).mp hanswer, ← hgives.1 s]⟩
  | false =>
    obtain ⟨hsession, hinOrder⟩ := horder hsafe
    rw [hsession, atlasInOrder_eq_of_perm reports fun k hk => hinOrder k (by omega), MayEnd, hsafe,
      if_neg Bool.false_ne_true, hends.survey_eq, p.survey_never d config s hrun]
    exact ⟨rfl, fun _ => ⟨_, rfl⟩⟩

theorem Inv.length_outcomes_le (h : p.Inv d config s q) (hunset : q.cancelled = false) :
    q.outcomes.length ≤ (Search.new d q.kinks).toList.length := by
  obtain ⟨done, reports, hkeeps, -⟩ := h.keeps hunset
  rw [← hkeeps.pass.length_eq, ← hkeeps.labeled.length_eq, List.length_append, List.length_append]
  omega

theorem Inv.goes_on (h : p.Inv d config s q) (hends : p.RunsThrough d config pool) :
    (∃ answer, Ends d config q answer) ∨
      ∃ q', p.Step d config q q' ∧ q'.cancelled = q.cancelled := by
  cases htaken : q.taken with
  | cons b taken =>
    have hb : b ∈ (Search.new d q.kinks).toList := h.listed b (by simp [htaken])
    have hlabel := hends.labelGrid_eq h.kinks_le hb q.session
    exact .inr ⟨_, .finish q [] taken b q.session _ _ htaken (.inr rfl) hlabel, rfl⟩
  | nil =>
    cases hwaiting : q.waiting with
    | cons b waiting =>
      right
      cases hset : q.cancelled with
      | false => exact ⟨_, .take q [] waiting b hwaiting hset (.inr ⟨rfl, htaken⟩), hset⟩
      | true =>
        cases hsafe : p.labeler.parallelSafe with
        | true => exact ⟨_, .leave q [] waiting b hsafe hwaiting hset, hset⟩
        | false => exact ⟨_, .breakOff q hsafe (by simp [hwaiting]) htaken hset, hset⟩
    | nil =>
      cases hset : q.cancelled with
      | true => exact .inl ⟨_, hwaiting, htaken, by rw [hset, if_pos rfl]⟩
      | false =>
        have hadd := hends.addPass_eq h.kinks_le q.atlas (h.length_outcomes_le hset)
        rcases Nat.lt_or_eq_of_le h.kinks_le with hmore | hlast
        · exact .inr ⟨_, .next q q.outcomes _ _ hwaiting htaken hset (.refl _) hadd hmore
            (hends.lists hmore), hset⟩
        · refine .inl ⟨.ok (q.atlas.addPass q.kinks q.outcomes), hwaiting, htaken, ?_⟩
          rw [hset, if_neg Bool.false_ne_true]
          exact ⟨hlast, q.outcomes, _, .refl _, hadd, rfl⟩

/-- The passes that are left, and a bound on the steps that are left in this pass. A boundary that
is waiting counts twice, since it is taken and then labeled. -/
def stepsLeft (d : Grid α) (config : SurveyConfig) (q : SurveyState α σ) : Nat × Nat :=
  (lastPass d config - q.kinks,
    2 * q.waiting.length + q.taken.length + if q.cancelled then 0 else 1)

theorem stepsLeft_lt (h : p.Step d config q q') :
    Prod.Lex (· < ·) (· < ·) (stepsLeft d config q') (stepsLeft d config q) := by
  cases h with
  | next report m listed hwaiting htaken hunset hreport hadd hmore hlisted =>
    refine Prod.Lex.left _ _ ?_
    change lastPass d config - (q.kinks + 1) < lastPass d config - q.kinks
    omega
  | take before after b hwaiting hunset hturn =>
    refine Prod.Lex.right _ ?_
    simp only [hwaiting, List.length_append, List.length_cons, List.length_nil]
    omega
  | leave before after b hsafe hwaiting hset =>
    refine Prod.Lex.right _ ?_
    simp only [hwaiting, List.length_append, List.length_cons]
    omega
  | breakOff hsafe hwaiting htaken hset =>
    have hlength := List.length_pos_of_ne_nil hwaiting
    refine Prod.Lex.right _ ?_
    simp only [List.length_nil]
    omega
  | finish before after b s₁ s₂ outcome htaken hsession hlabel =>
    refine Prod.Lex.right _ ?_
    simp only [htaken, List.length_append, List.length_cons]
    omega
  | cancel hunset =>
    refine Prod.Lex.right _ ?_
    simp [hunset]

theorem wellFounded_step (p : Pipeline α σ) (d : Grid α) (config : SurveyConfig) :
    WellFounded fun q' q => p.Step d config q q' :=
  Subrelation.wf stepsLeft_lt
    (InvImage.wf (stepsLeft d config) (Prod.lex Nat.lt_wfRel Nat.lt_wfRel).wf)

theorem Inv.comes_to_end (h : p.Inv d config s q) (hends : p.RunsThrough d config pool) :
    ∃ q' answer, p.Steps d config q q' ∧ q'.cancelled = q.cancelled ∧
      Ends d config q' answer := by
  induction q using (wellFounded_step p d config).induction with
  | _ q ih =>
    rcases h.goes_on hends with ⟨answer, hover⟩ | ⟨q₁, hstep, hsame⟩
    · exact ⟨q, answer, .refl, rfl, hover⟩
    · obtain ⟨q', answer, hsteps, hcancelled, hover⟩ := ih q₁ hstep (h.step hstep)
      exact ⟨q', answer, .head hstep hsteps, hcancelled.trans hsame, hover⟩

/-! ## Surveys in order -/

section InOrder

variable (p d config)

theorem steps_leave_out (kinks : Nat) (waiting : List GridBoundary) (outcomes : List (Outcome α))
    (m : Atlas α) (s : Session α σ) :
    p.Steps d config ⟨kinks, waiting, [], outcomes, m, s, true⟩
      ⟨kinks, [], [], outcomes, m, s, true⟩ := by
  cases hsafe : p.labeler.parallelSafe with
  | true =>
    induction waiting with
    | nil => exact .refl
    | cons b waiting ih => exact .head (.leave _ [] waiting b hsafe rfl rfl) ih
  | false =>
    cases waiting with
    | nil => exact .refl
    | cons b waiting => exact .single (.breakOff _ hsafe (List.cons_ne_nil _ _) rfl rfl)

theorem steps_visitAll (stop : StopSignal α σ) (kinks : Nat) (m : Atlas α)
    (l : List (List GridPoint))
    (hlabels : ∀ b ∈ l.map GridBoundary.mk, ∀ s, words.labelGrid p d b s = some (p.labelGrid d b s))
    (found : Array (Outcome α)) (s : Session α σ) :
    p.Steps d config ⟨kinks, l.map .mk, [], found.toList, m, s, false⟩
      ⟨kinks, [], [], (Search.visitAll (p.passStep d stop) l (found, s)).1.toList, m,
        (Search.visitAll (p.passStep d stop) l (found, s)).2,
        stop (Search.visitAll (p.passStep d stop) l (found, s)).2⟩ := by
  induction l generalizing found s with
  | nil =>
    simp only [Search.visitAll, List.map_nil]
    cases hs : stop s with
    | true => exact .single (.cancel _ rfl)
    | false => exact .refl
  | cons points l ih =>
    rw [List.map_cons, List.forall_mem_cons] at hlabels
    simp only [Search.visitAll, List.map_cons]
    cases hs : stop s with
    | true =>
      simp only [p.passStep_of_stop d stop found s _ hs, hs]
      exact .head (.cancel _ rfl) (p.steps_leave_out d config kinks _ _ m s)
    | false =>
      simp only [p.passStep_of_not_stop d stop found s _ hs]
      refine .head (.take _ [] (l.map .mk) ⟨points⟩ rfl rfl (.inr ⟨rfl, rfl⟩)) ?_
      refine .head (.finish _ [] [] ⟨points⟩ s _ _ rfl (.inr rfl) (hlabels.1 s)) ?_
      have hrest := ih hlabels.2 (found.push (p.labelGrid d ⟨points⟩ s).1)
        (p.labelGrid d ⟨points⟩ s).2
      rwa [Array.toList_push] at hrest

variable {d config}

section RunsThrough

variable {p} (h : p.RunsThrough d config pool)

include h

theorem RunsThrough.steps_pass (stop : StopSignal α σ) {kinks : Nat}
    (hk : kinks ≤ lastPass d config) (m : Atlas α) (s : Session α σ) :
    p.Steps d config ⟨kinks, (Search.new d kinks).toList, [], [], m, s, false⟩
      ⟨kinks, [], [], (p.pass d stop kinks s).1.outcomes, m, (p.pass d stop kinks s).2,
        (p.pass d stop kinks s).1.cancelled⟩ := by
  have hsteps := p.steps_visitAll d config stop kinks m (Search.new d kinks).left
    (fun b hb s => h.labelGrid_eq hk (by rwa [Search.toList_new]) s) #[] s
  rw [← Search.visit_new, ← Search.toList_new] at hsteps
  exact hsteps

theorem RunsThrough.ends_of_pass_cancelled (stop : StopSignal α σ) (count : Nat) {kinks : Nat}
    (hk : kinks ≤ lastPass d config) (m : Atlas α) (s : Session α σ)
    (hset : (p.pass d stop kinks s).1.cancelled = true) :
    ∃ q, p.Steps d config ⟨kinks, (Search.new d kinks).toList, [], [], m, s, false⟩ q ∧
      Ends d config q (p.passes d stop (count + 1) kinks m s).1 ∧
      q.session = (p.passes d stop (count + 1) kinks m s).2 := by
  have hpass := h.steps_pass stop hk m s
  rw [hset] at hpass
  simp only [passes_succ, hset, if_true]
  exact ⟨_, hpass, ⟨rfl, rfl, rfl⟩, rfl⟩

theorem RunsThrough.steps_passes (stop : StopSignal α σ) (count kinks : Nat) (m : Atlas α)
    (s : Session α σ) (hlast : kinks + count = lastPass d config) :
    ∃ q, p.Steps d config ⟨kinks, (Search.new d kinks).toList, [], [], m, s, false⟩ q ∧
      Ends d config q (p.passes d stop (count + 1) kinks m s).1 ∧
      q.session = (p.passes d stop (count + 1) kinks m s).2 := by
  induction count generalizing kinks m s with
  | zero =>
    have hk : kinks ≤ lastPass d config := hlast.le
    cases hset : (p.pass d stop kinks s).1.cancelled with
    | true => exact h.ends_of_pass_cancelled stop 0 hk m s hset
    | false =>
      have hpass := h.steps_pass stop hk m s
      have hadd := h.addPass_eq hk m (p.length_outcomes_pass_le d stop kinks s)
      rw [hset] at hpass
      simp only [passes_succ, hset, Bool.false_eq_true, if_false]
      exact ⟨_, hpass, ⟨rfl, rfl, hlast, _, _, .refl _, hadd, rfl⟩, rfl⟩
  | succ count ih =>
    have hk : kinks ≤ lastPass d config := by omega
    cases hset : (p.pass d stop kinks s).1.cancelled with
    | true => exact h.ends_of_pass_cancelled stop (count + 1) hk m s hset
    | false =>
      have hpass := h.steps_pass stop hk m s
      have hadd := h.addPass_eq hk m (p.length_outcomes_pass_le d stop kinks s)
      rw [hset] at hpass
      rw [passes_succ]
      simp only [hset, Bool.false_eq_true, if_false]
      obtain ⟨q, hsteps, hover⟩ := ih (kinks + 1)
        (m.addPass kinks (p.pass d stop kinks s).1.outcomes) (p.pass d stop kinks s).2 (by omega)
      refine ⟨q, (hpass.tail ?_).trans hsteps, hover⟩
      exact .next _ (p.pass d stop kinks s).1.outcomes _ _ rfl rfl rfl (.refl _) hadd
        (by simp only; omega) (h.lists (by simp only; omega))

theorem RunsThrough.steps_survey (hrun : p.preflight d = .ok ()) (stop : StopSignal α σ)
    (s : Session α σ) :
    ∃ q₀ q answer, Begins d config s false q₀ ∧ p.Steps d config q₀ q ∧ Ends d config q answer ∧
      words.survey p d config pool stop s = some (answer, q.session) := by
  obtain ⟨q, hsteps, hover, hsession⟩ := h.steps_passes stop (lastPass d config) 0
    (.empty d config.maxKinks) s (Nat.zero_add _)
  refine ⟨_, q, _, ⟨_, h.lists (Nat.zero_le _), rfl⟩, hsteps, hover, ?_⟩
  rw [h.survey_eq, survey_def, hrun, hsession]
  rfl

end RunsThrough

end InOrder

/-! ## All or nothing -/

theorem RunsThrough.counting {p : Pipeline α σ} (h : p.RunsThrough d config pool)
    (s : Session α σ) (name : String) : (p.counting name).RunsThrough d config pool := by
  refine h.relabel (p.labeler.counting name) ?_ s
  unfold startWorkers
  cases config.threads? <;> rfl

/-- **All or nothing.** Let a survey come to its end in machine words if it is not cancelled. Then
whatever the workers do and whenever the token is set, it comes to an end. It has no atlas if the
token is set by then, and otherwise it ends as one that is not cancelled may end: with its atlas, if
the labeler is not safe for workers or does not remember anything. What a survey in order does is
one such run. If a labeler sets the token in its `n`-th call, then that is its last one, and if there
are fewer calls, then nothing changes. -/
theorem survey_all_or_nothing (p : Pipeline α σ) (d : Grid α) (config : SurveyConfig)
    (pool : WorkerPool) (hrun : p.preflight d = .ok ()) (hends : p.RunsThrough d config pool) :
    (∀ (s : Session α σ) token, ∃ q, Begins d config s token q) ∧
    (∀ s token q₀ q, Begins d config s token q₀ → p.Steps d config q₀ q →
      (∃ q' answer, p.Steps d config q q' ∧ q'.cancelled = q.cancelled ∧
        Ends d config q' answer) ∧
      (∀ q' answer, p.Steps d config q q' → Ends d config q' answer →
        (q.cancelled = true → q'.cancelled = true) ∧
        (q'.cancelled = true → answer = .error .cancelled) ∧
        (q'.cancelled = false → p.MayEnd d config pool s (answer, q'.session) ∧
          (p.labeler.IsPure →
            ∃ s', words.survey p d config pool .never s = some (answer, s'))))) ∧
    WellFounded (fun q' q => p.Step d config q q') ∧
    (∀ stop s, ∃ q₀ q answer, Begins d config s false q₀ ∧ p.Steps d config q₀ q ∧
      Ends d config q answer ∧
      words.survey p d config pool stop s = some (answer, q.session)) ∧
    ∀ (name : String) (n : Nat), 1 ≤ n → ∀ s : Session α (Nat × σ), s.labeler.1 = 0 →
      ∃ whole stopped, words.survey (p.counting name) d config pool .never s = some whole ∧
        words.survey (p.counting name) d config pool (.afterCalls n) s = some stopped ∧
        (n ≤ whole.2.labeler.1 → stopped.1 = .error .cancelled ∧ stopped.2.labeler.1 = n) ∧
        (whole.2.labeler.1 < n → stopped = whole) := by
  refine ⟨fun s token => ⟨_, _, hends.lists (Nat.zero_le _), rfl⟩, fun s token q₀ q hq₀ hq => ?_,
    wellFounded_step p d config, hends.steps_survey hrun, fun name n hn s hs => ?_⟩
  · have hinv : p.Inv d config s q := hq₀.inv.steps hq
    refine ⟨hinv.comes_to_end hends, fun q' answer hsteps hover =>
      ⟨hsteps.cancelled, fun hset => ?_, ?_⟩⟩
    · obtain ⟨-, -, hanswer⟩ := hover
      rwa [hset, if_pos rfl] at hanswer
    · exact (hinv.steps hsteps).ends hrun hends hover
  · have hcounting := hends.counting ⟨s.labeler.2, s.canvas, s.attempts⟩ name
    exact ⟨_, _, hcounting.survey_eq .never s, hcounting.survey_eq _ s,
      p.survey_counting d name config hrun n hn s hs⟩

theorem survey_all_or_nothing_flat :
    onlySecond.preflight cell = .ok () ∧ onlySecond.RunsThrough cell ⟨0, some 4⟩ .willing ∧
    ∃ whole stopped, words.survey (onlySecond.counting "stops") cell ⟨0, some 4⟩ .willing .never
        (.new (0, 0) false) = some whole ∧
      words.survey (onlySecond.counting "stops") cell ⟨0, some 4⟩ .willing (.afterCalls 2)
        (.new (0, 0) false) = some stopped ∧
      whole.2.labeler.1 = 2 ∧ stopped.1 = .error .cancelled ∧ stopped.2.labeler.1 = 2 := by
  have hrun : onlySecond.preflight cell = .ok () := by decide +kernel
  have hends := runsThrough_onlySecond ⟨0, some 4⟩ rfl .willing
  obtain ⟨-, -, -, -, hcounting⟩ :=
    survey_all_or_nothing onlySecond cell ⟨0, some 4⟩ .willing hrun hends
  obtain ⟨whole, stopped, hwhole, hstopped, hstops, -⟩ :=
    hcounting "stops" 2 (by decide) (.new (0, 0) false) rfl
  have hcalls : whole.2.labeler.1 = 2 := by
    have hcalls : ((words.survey (onlySecond.counting "stops") cell ⟨0, some 4⟩ .willing .never
        (.new (0, 0) false)).map fun result => result.2.labeler.1) = some 2 := by decide +kernel
    rw [hwhole] at hcalls
    exact Option.some_inj.mp hcalls
  exact ⟨hrun, hends, whole, stopped, hwhole, hstopped, hcalls, (hstops hcalls.ge).1,
    (hstops hcalls.ge).2⟩

/-- On the widest grid the labeler is called twice at most. If it is to set the token in a later call,
then there is neither an atlas nor a cancelled survey. -/
theorem survey_counting_overflows_wide :
    (allPositive.counting "stops").preflight Words.wide = .ok () ∧
    words.survey (allPositive.counting "stops") Words.wide ⟨0, none⟩ .willing (.afterCalls 100)
      (.new (0, ()) false) = none := by
  refine ⟨by decide +kernel, ?_⟩
  rw [← Option.isNone_iff_eq_none]
  decide +kernel

end Pipeline

end BoundaryAtlas
