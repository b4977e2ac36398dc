import BoundaryAtlas.Proofs.Atlas.AnyOrder
import BoundaryAtlas.Proofs.Atlas.Reports
import BoundaryAtlas.Labeler.Prompt

/-!
# A survey in order

On one thread, a survey goes through the boundaries by their kinks, and through those with as many
kinks in their own order. It asks the labeler about each boundary that has a trace, once and in this
order, so that the answers belong to the boundaries in the order they are given in.
-/

namespace BoundaryAtlas

open Machine

variable {α σ : Type}

/-! ## The route -/

namespace Search

/-- The boundaries with fewer than `count` kinks, in the order of a survey. -/
def route (d : Grid α) (count : Nat) : List GridBoundary :=
  (List.range count).flatMap fun k => (new d k).toList

theorem route_succ (d : Grid α) (count : Nat) :
    route d (count + 1) = route d count ++ (new d count).toList := by
  simp [route, List.range_succ]

theorem mem_route (d : Grid α) (count : Nat) (b : GridBoundary) :
    b ∈ route d count ↔ ∃ k < count, b.IsCanonical d k := by
  simp only [route, List.mem_flatMap, List.mem_range, mem_toList_new]

theorem route_sorted (d : Grid α) (count : Nat) :
    (route d count).Pairwise fun a b =>
      a.kinks < b.kinks ∨ a.kinks = b.kinks ∧ GridBoundary.cmp a b = .lt := by
  have hkinks : ∀ k, ∀ b ∈ (new d k).toList, b.kinks = k :=
    fun k b hb => ((mem_toList_new d k b).mp hb).kinks_eq
  refine List.pairwise_flatMap.mpr ⟨fun k _ => ?_, ?_⟩
  · refine (toList_new_sorted d k).imp_of_mem ?_
    intro a b ha hb h
    exact .inr ⟨(hkinks k a ha).trans (hkinks k b hb).symm, h⟩
  · refine List.pairwise_lt_range.imp ?_
    intro k k' hlt a ha b hb
    left
    rwa [hkinks k a ha, hkinks k' b hb]

end Search

/-! ## Labelers that are asked several times -/

/-- The verdicts on traces that are given one after the other, and the state after the last one. -/
def Labeler.classifyAll (l : Labeler α σ) : σ → List (Trace α) → List Bool × σ
  | s, [] => ([], s)
  | s, trace :: rest =>
    let answers := l.classifyAll (l.classify s trace).2 rest
    ((l.classify s trace).1 :: answers.1, answers.2)

theorem Labeler.length_classifyAll (l : Labeler α σ) (s : σ) (traces : List (Trace α)) :
    (l.classifyAll s traces).1.length = traces.length := by
  induction traces generalizing s with
  | nil => rfl
  | cons trace rest ih => simp [classifyAll, ih]

namespace Pipeline

variable [Scalar α] (p : Pipeline α σ) (d : Grid α)

/-! ## One boundary -/

/-- What is drawn for a grid boundary: the boundary that the trace has to track, if there is a place
for it in the plane, and then the trace, if there is one. -/
def drawingsOf (b : GridBoundary) : List (Drawing α) :=
  match b.toBoundary d with
  | .error _ => []
  | .ok boundary =>
    ⟨.boundary, (p.target boundary).points⟩ ::
      match p.synth.synthesize (p.target boundary) p.horizon with
      | .error _ => []
      | .ok trace => [⟨.trace, trace⟩]

theorem labeler_labelGrid (b : GridBoundary) (s : Session α σ) :
    (p.labelGrid d b s).2.labeler =
      match p.traceOf d b with
      | .error _ => s.labeler
      | .ok trace => (p.labeler.classify s.labeler trace).2 := by
  rw [labelGrid_def]
  unfold traceOf
  cases b.toBoundary d with
  | error fault => rfl
  | ok boundary =>
    simp only [bind, Except.bind, label_def]
    cases p.synth.synthesize (p.target boundary) p.horizon <;> rfl

theorem canvas_labelGrid (b : GridBoundary) (s : Session α σ) :
    (p.labelGrid d b s).2.canvas = s.canvas.map (· ++ (p.drawingsOf d b).toArray) := by
  rw [labelGrid_def]
  unfold drawingsOf
  cases b.toBoundary d with
  | error fault => simp
  | ok boundary =>
    simp only [label_def]
    cases p.synth.synthesize (p.target boundary) p.horizon <;> cases s.canvas <;>
      simp only [Session.draw, Option.map_none, Option.map_some, Array.push_eq_append,
        Array.append_assoc, List.append_toArray, List.singleton_append]

theorem record?_labelGrid_eq (b : GridBoundary) (s : Session α σ) :
    (p.labelGrid d b s).1.record? =
      match p.traceOf d b with
      | .error _ => none
      | .ok trace => some ⟨b, b.kinks, (p.labeler.classify s.labeler trace).1⟩ := by
  rw [labelGrid_fst, verdict_eq]
  cases p.traceOf d b <;> rfl

/-! ## A list of boundaries -/

theorem labelAll_after (l : List GridBoundary) (found : Array (Outcome α)) (s : Session α σ) :
    l.foldl (fun state b => (state.1.push (p.labelGrid d b state.2).1,
        (p.labelGrid d b state.2).2)) (found, s) =
      (found ++ (p.labelAll d l s).1, (p.labelAll d l s).2) := by
  induction l generalizing found s with
  | nil => simp [labelAll_def]
  | cons b l ih =>
    rw [labelAll_def, List.foldl_cons, List.foldl_cons, ih, ih]
    simp only [Array.push_eq_append, Array.append_assoc, Array.empty_append]

theorem labelAll_cons (b : GridBoundary) (l : List GridBoundary) (s : Session α σ) :
    p.labelAll d (b :: l) s =
      (#[(p.labelGrid d b s).1] ++ (p.labelAll d l (p.labelGrid d b s).2).1,
        (p.labelAll d l (p.labelGrid d b s).2).2) :=
  (p.labelAll_def d (b :: l) s).trans (p.labelAll_after d l #[(p.labelGrid d b s).1] _)

theorem labelAll_append (l l' : List GridBoundary) (s : Session α σ) :
    p.labelAll d (l ++ l') s =
      ((p.labelAll d l s).1 ++ (p.labelAll d l' (p.labelAll d l s).2).1,
        (p.labelAll d l' (p.labelAll d l s).2).2) := by
  rw [labelAll_def, List.foldl_append, ← labelAll_def]
  exact p.labelAll_after d l' _ _

theorem forall₂_labelAll (l : List GridBoundary) (s : Session α σ) :
    List.Forall₂ (fun b outcome => ∃ s, outcome = (p.labelGrid d b s).1) l
      (p.labelAll d l s).1.toList := by
  induction l generalizing s with
  | nil => exact .nil
  | cons b l ih =>
    rw [labelAll_cons, Array.toList_append]
    exact .cons ⟨s, rfl⟩ (ih _)

/-- The boundaries of a list that have a trace, each with its trace. -/
def traced (l : List GridBoundary) : List (GridBoundary × Trace α) :=
  l.filterMap fun b => (p.traceOf d b).toOption.map (Prod.mk b)

/-- What the labeler answers on the way through a list of boundaries. -/
def answers (l : List GridBoundary) (s : Session α σ) : List Bool × σ :=
  p.labeler.classifyAll s.labeler ((p.traced d l).map Prod.snd)

theorem traced_cons (b : GridBoundary) (l : List GridBoundary) :
    p.traced d (b :: l) =
      match p.traceOf d b with
      | .error _ => p.traced d l
      | .ok trace => (b, trace) :: p.traced d l := by
  unfold traced
  cases h : p.traceOf d b <;> simp [h, Except.toOption]

theorem answers_cons (b : GridBoundary) (l : List GridBoundary) (s : Session α σ) :
    p.answers d (b :: l) s =
      match p.traceOf d b with
      | .error _ => p.answers d l (p.labelGrid d b s).2
      | .ok trace => ((p.labeler.classify s.labeler trace).1 ::
          (p.answers d l (p.labelGrid d b s).2).1, (p.answers d l (p.labelGrid d b s).2).2) := by
  have hlabeler := p.labeler_labelGrid d b s
  unfold answers
  rw [traced_cons, hlabeler]
  cases p.traceOf d b <;> rfl

theorem labeler_labelAll (l : List GridBoundary) (s : Session α σ) :
    (p.labelAll d l s).2.labeler = (p.answers d l s).2 := by
  induction l generalizing s with
  | nil => rfl
  | cons b l ih =>
    rw [labelAll_cons, ih, answers_cons]
    cases p.traceOf d b <;> rfl

theorem canvas_labelAll (l : List GridBoundary) (s : Session α σ) :
    (p.labelAll d l s).2.canvas = s.canvas.map (· ++ (l.flatMap (p.drawingsOf d)).toArray) := by
  induction l generalizing s with
  | nil => cases h : s.canvas <;> simp [labelAll_def, h]
  | cons b l ih =>
    rw [labelAll_cons, ih, canvas_labelGrid, Option.map_map]
    congr 1
    funext drawn
    simp

/-- Each boundary with a trace has the verdict of its own question. -/
theorem records_labelAll (l : List GridBoundary) (s : Session α σ) :
    (p.labelAll d l s).1.toList.filterMap Outcome.record? =
      List.zipWith (fun b label => ⟨b.1, b.1.kinks, label⟩) (p.traced d l) (p.answers d l s).1 := by
  induction l generalizing s with
  | nil => rfl
  | cons b l ih =>
    rw [labelAll_cons, Array.toList_append, List.filterMap_append, ih, traced_cons, answers_cons]
    have hrecord := p.record?_labelGrid_eq d b s
    cases htrace : p.traceOf d b <;> simp [hrecord, htrace]

/-! ## All passes -/

/-- The session after all boundaries with fewer than `count` kinks. -/
def sessionAfter (s : Session α σ) (count : Nat) : Session α σ :=
  (p.labelAll d (Search.route d count) s).2

/-- The outcomes of the pass for `kinks` in a survey in order. -/
def reportInOrder (s : Session α σ) (kinks : Nat) : List (Outcome α) :=
  (p.labelAll d (Search.new d kinks).toList (p.sessionAfter d s kinks)).1.toList

theorem sessionAfter_succ (s : Session α σ) (count : Nat) :
    p.sessionAfter d s (count + 1) =
      (p.labelAll d (Search.new d count).toList (p.sessionAfter d s count)).2 := by
  rw [sessionAfter, Search.route_succ, labelAll_append]
  rfl

theorem outcomes_route (s : Session α σ) (count : Nat) :
    (p.labelAll d (Search.route d count) s).1.toList =
      (List.range count).flatMap (p.reportInOrder d s) := by
  induction count with
  | zero => rfl
  | succ count ih =>
    rw [Search.route_succ, labelAll_append, Array.toList_append, ih, List.range_succ,
      List.flatMap_append, List.flatMap_singleton]
    rfl

theorem isReport_reportInOrder (s : Session α σ) (kinks : Nat) :
    IsReport d kinks (p.reportInOrder d s kinks) :=
  Collects.isReport ⟨_, .refl _, p.forall₂_labelAll d _ _⟩

theorem passes_in_order (count kinks : Nat) (m : Atlas α) (s : Session α σ) :
    p.passes d .never count kinks m (p.sessionAfter d s kinks) =
      (.ok (m.addPasses (p.reportInOrder d s) count kinks), p.sessionAfter d s (kinks + count)) := by
  induction count generalizing kinks m with
  | zero => rfl
  | succ count ih =>
    simp only [passes_succ, pass_never, ← sessionAfter_succ]
    rw [show kinks + (count + 1) = kinks + 1 + count by omega]
    exact ih (kinks + 1) _

/-- The atlas of a survey in order. -/
def atlasInOrder (config : SurveyConfig) (s : Session α σ) : Atlas α :=
  (Atlas.empty d config.maxKinks).addPasses (p.reportInOrder d s) (lastPass d config + 1) 0

theorem survey_never (config : SurveyConfig) (s : Session α σ) (hrun : p.preflight d = .ok ()) :
    p.survey d config .never s =
      (.ok (p.atlasInOrder d config s), p.sessionAfter d s (lastPass d config + 1)) := by
  rw [survey_def, hrun]
  have h := p.passes_in_order d (lastPass d config + 1) 0 (.empty d config.maxKinks) s
  rwa [Nat.zero_add] at h

theorem mayAnswer_survey_never (config : SurveyConfig) (s : Session α σ) :
    p.MayAnswer d config (p.survey d config .never s).1 := by
  cases hrun : p.preflight d with
  | error f =>
    rw [survey_def]
    unfold MayAnswer
    rw [hrun]
  | ok u =>
    have hsurvey := p.survey_never d config s hrun
    rw [hsurvey]
    exact p.mayAnswer_of_survey d config .never s _ (by rw [hsurvey])

theorem mem_records_labelAll (l : List GridBoundary) (s : Session α σ) (r : Record) :
    r ∈ (p.labelAll d l s).1.toList.filterMap Outcome.record? ↔
      ∃ i : Nat, ∃ trace, (p.traced d l)[i]? = some (r.boundary, trace) ∧
        (p.answers d l s).1[i]? = some r.label ∧ r.kinks = r.boundary.kinks := by
  rw [records_labelAll, List.mem_iff_getElem?]
  simp only [List.getElem?_zipWith_eq_some]
  constructor
  · rintro ⟨i, ⟨b, trace⟩, label, hi, hlabel, rfl⟩
    exact ⟨i, trace, hi, hlabel, rfl⟩
  · rintro ⟨i, trace, hi, hlabel, hkinks⟩
    refine ⟨i, _, _, hi, hlabel, ?_⟩
    rw [← hkinks]

theorem get?_atlasInOrder (config : SurveyConfig) (s : Session α σ) (b : GridBoundary)
    (label : Bool) :
    (p.atlasInOrder d config s).get? b = some label ↔
      ∃ i : Nat, ∃ trace,
        (p.traced d (Search.route d (lastPass d config + 1)))[i]? = some (b, trace) ∧
        (p.answers d (Search.route d (lastPass d config + 1)) s).1[i]? = some label := by
  rw [atlasInOrder, Atlas.get?_addPasses_eq_some_iff d config _
    fun k _ => p.isReport_reportInOrder d s k]
  have hmem : ∀ o : Outcome α, (∃ k ≤ lastPass d config, o ∈ p.reportInOrder d s k) ↔
      o ∈ (p.labelAll d (Search.route d (lastPass d config + 1)) s).1.toList := by
    intro o
    simp only [outcomes_route, List.mem_flatMap, List.mem_range, Nat.lt_succ_iff]
  constructor
  · rintro ⟨k, hk, o, ho, rfl, hlabel⟩
    obtain ⟨r, hr, rfl⟩ := Option.map_eq_some_iff.mp hlabel
    obtain ⟨i, trace, hi, hanswer, -⟩ := (p.mem_records_labelAll d _ s r).mp
      (List.mem_filterMap.mpr ⟨o, (hmem o).mp ⟨k, hk, ho⟩, hr⟩)
    cases o <;> cases hr
    exact ⟨i, trace, hi, hanswer⟩
  · rintro ⟨i, trace, hi, hanswer⟩
    obtain ⟨o, ho, hr⟩ := List.mem_filterMap.mp
      ((p.mem_records_labelAll d _ s ⟨b, b.kinks, label⟩).mpr ⟨i, trace, hi, hanswer, rfl⟩)
    obtain ⟨k, hk, hok⟩ := (hmem o).mpr ho
    cases o <;> cases hr
    exact ⟨k, hk, _, hok, rfl, rfl⟩

theorem exists_label_atlasInOrder (config : SurveyConfig) (s : Session α σ) {i : Nat}
    {b : GridBoundary} {trace : Trace α}
    (hi : (p.traced d (Search.route d (lastPass d config + 1)))[i]? = some (b, trace)) :
    ∃ label, (p.answers d (Search.route d (lastPass d config + 1)) s).1[i]? = some label ∧
      (p.atlasInOrder d config s).get? b = some label := by
  have hlt : i < (p.answers d (Search.route d (lastPass d config + 1)) s).1.length := by
    rw [answers, Labeler.length_classifyAll, List.length_map]
    exact (List.getElem?_eq_some_iff.mp hi).1
  refine ⟨_, List.getElem?_eq_getElem hlt, ?_⟩
  exact (p.get?_atlasInOrder d config s b _).mpr ⟨i, trace, hi, List.getElem?_eq_getElem hlt⟩

theorem mem_traced_of_get?_atlasInOrder (config : SurveyConfig) (s : Session α σ) (b : GridBoundary)
    (h : (p.atlasInOrder d config s).get? b ≠ none) :
    b ∈ (p.traced d (Search.route d (lastPass d config + 1))).map Prod.fst := by
  obtain ⟨label, hlabel⟩ := Option.ne_none_iff_exists'.mp h
  obtain ⟨i, trace, hi, -⟩ := (p.get?_atlasInOrder d config s b label).mp hlabel
  exact List.mem_map.mpr ⟨(b, trace), List.mem_of_getElem? hi, rfl⟩

end Pipeline

/-! ## The calls of the labeler -/

/-- A labeler that keeps a list of the traces it was asked about. -/
def Labeler.recording (l : Labeler α σ) : Labeler α (List (Trace α) × σ) where
  name := l.name
  parallelSafe := l.parallelSafe
  checkDomain := l.checkDomain
  classify := fun (asked, s) trace =>
    ((l.classify s trace).1, asked ++ [trace], (l.classify s trace).2)

theorem Labeler.classifyAll_recording (l : Labeler α σ) (asked : List (Trace α)) (s : σ)
    (traces : List (Trace α)) :
    l.recording.classifyAll (asked, s) traces =
      ((l.classifyAll s traces).1, asked ++ traces, (l.classifyAll s traces).2) := by
  induction traces generalizing asked s with
  | nil => simp [classifyAll]
  | cons trace rest ih =>
    have hfirst : l.recording.classify (asked, s) trace =
        ((l.classify s trace).1, asked ++ [trace], (l.classify s trace).2) := rfl
    simp only [classifyAll, hfirst, ih, List.append_assoc, List.singleton_append]

/-- The session before any call was recorded. -/
def Session.recording (s : Session α σ) : Session α (List (Trace α) × σ) :=
  ⟨([], s.labeler), s.canvas, s.attempts⟩

namespace Pipeline

variable [Scalar α]

/-- The pipeline with a labeler that keeps a list of its calls. -/
def recording (p : Pipeline α σ) : Pipeline α (List (Trace α) × σ) :=
  ⟨p.synth, p.labeler.recording, p.box, p.inverts⟩

/-- How a survey that is not cancelled may end in machine words. Workers share its passes if the
labeler allows it, and only then, whatever the number of threads. -/
def MayEnd (p : Pipeline α σ) (d : Grid α) (config : SurveyConfig) (pool : WorkerPool)
    (s : Session α σ) (result : Except (Fault α) (Atlas α) × Session α σ) : Prop :=
  if p.labeler.parallelSafe then words.MayAnswer p d config pool result.1
  else words.survey p d config pool .never s = some result

theorem labeler_survey_recording (p : Pipeline α σ) (d : Grid α) (config : SurveyConfig)
    (s : Session α σ) (hrun : p.preflight d = .ok ()) :
    (p.recording.survey d config .never s.recording).2.labeler.1 =
      (p.traced d (Search.route d (lastPass d config + 1))).map Prod.snd := by
  have hrun' : p.recording.preflight d = .ok () := hrun
  have htraced : p.recording.traced d = p.traced d := rfl
  have hlabeler : p.recording.labeler = p.labeler.recording := rfl
  have hstart : s.recording.labeler = ([], s.labeler) := rfl
  rw [p.recording.survey_never d config s.recording hrun', sessionAfter, labeler_labelAll, answers,
    hlabeler, hstart, Labeler.classifyAll_recording, htraced, List.nil_append]

theorem drawingsOf_eq (p : Pipeline α σ) (d : Grid α) (b : GridBoundary) (boundary : Boundary α)
    (h : b.toBoundary d = .ok boundary) :
    p.drawingsOf d b = ⟨.boundary, (p.target boundary).points⟩ ::
      ((p.traceOf d b).toOption.map (Drawing.mk .trace)).toList := by
  unfold drawingsOf traceOf
  rw [h]
  simp only [bind, Except.bind]
  cases p.synth.synthesize (p.target boundary) p.horizon <;> rfl

/-- **In order.** Let a survey come to its end in machine words, and let its boundaries have places
in the plane. If the labeler is not safe for workers and the survey is not cancelled, then it asks
the labeler once about each boundary that has a trace, and about no other: by the number of kinks,
and then by the order of boundaries. The label of a boundary is the answer to its own question. Each
boundary is drawn in this order, and then its trace if it has one. -/
theorem survey_asks_in_order (p : Pipeline α σ) (d : Grid α) (config : SurveyConfig)
    (pool : WorkerPool) (hrun : p.preflight d = .ok ()) (hends : p.RunsThrough d config pool)
    (hplaced : ∀ k ≤ lastPass d config, ∀ b ∈ (Search.new d k).toList, Placed d b)
    (hsafe : p.labeler.parallelSafe = false) (s : Session α σ)
    (result : Except (Fault α) (Atlas α) × Session α σ) (hend : p.MayEnd d config pool s result) :
    let route := Search.route d (lastPass d config + 1)
    let asked := p.traced d route
    let answers := p.labeler.classifyAll s.labeler (asked.map Prod.snd)
    (∀ b, b ∈ route ↔ ∃ k ≤ lastPass d config, ∃ l ∈ words.toList (Search.new d k), b ∈ l) ∧
    route.Pairwise (fun a b =>
      a.kinks < b.kinks ∨ a.kinks = b.kinks ∧ GridBoundary.cmp a b = .lt) ∧
    (∃ r, words.survey p.recording d config pool .never s.recording = some r ∧
      r.2.labeler.1 = asked.map Prod.snd) ∧
    result.2.labeler = answers.2 ∧
    result.2.canvas = s.canvas.map (· ++ (route.flatMap (p.drawingsOf d)).toArray) ∧
    (∀ b ∈ route, ∃ boundary, b.toBoundary d = .ok boundary ∧
      p.drawingsOf d b = ⟨.boundary, (p.target boundary).points⟩ ::
        ((p.traceOf d b).toOption.map (Drawing.mk .trace)).toList) ∧
    ∃ m, result.1 = .ok m ∧
      (∀ (i : Nat) (b : GridBoundary) (trace : Trace α), asked[i]? = some (b, trace) →
        ∃ label, answers.1[i]? = some label ∧ m.get? b = some label) ∧
      ∀ b, m.get? b ≠ none → b ∈ asked.map Prod.fst := by
  intro route asked answers
  have hroute : ∀ b, b ∈ route ↔ ∃ k ≤ lastPass d config, b ∈ (Search.new d k).toList := by
    intro b
    simp only [route, Search.mem_route, Search.mem_toList_new, Nat.lt_succ_iff]
  have hrecording : p.recording.RunsThrough d config pool := by
    refine hends.relabel p.labeler.recording ?_ s
    have hworkers := hends.workers
    unfold startWorkers at hworkers ⊢
    exact hworkers
  rw [MayEnd, hsafe, if_neg Bool.false_ne_true, hends.survey_eq, p.survey_never d config s hrun,
    Option.some_inj] at hend
  subst hend
  refine ⟨?_, Search.route_sorted d _, ?_, p.labeler_labelAll d _ s, p.canvas_labelAll d _ s, ?_,
    _, rfl, fun i b trace hi => p.exists_label_atlasInOrder d config s hi,
    p.mem_traced_of_get?_atlasInOrder d config s⟩
  · simpa only [hends.fits.toList_eq, Option.mem_some_iff, exists_eq_left'] using hroute
  · exact ⟨_, hrecording.survey_eq .never s.recording,
      p.labeler_survey_recording d config s hrun⟩
  · intro b hb
    obtain ⟨k, hk, hb⟩ := (hroute b).mp hb
    obtain ⟨boundary, hboundary⟩ := hplaced k hk b hb
    exact ⟨boundary, hboundary, p.drawingsOf_eq d b boundary hboundary⟩

/-- A pipeline on a cell whose labeler gives its second answer only as positive. -/
def onlySecond : Pipeline ℚ Nat :=
  { steep with labeler := ⟨"second", false, fun _ _ => .ok (), fun n _ => (n = 1, n + 1)⟩ }

theorem runsThrough_onlySecond (config : SurveyConfig) (hkinks : config.maxKinks = 0)
    (pool : WorkerPool) : onlySecond.RunsThrough cell config pool := by
  have hlast : lastPass cell config = 0 := by simp [lastPass, hkinks]
  refine onlySecond.runsThrough_of_chain cell config pool (by decide +kernel) (by decide +kernel) _
    _ rfl (le_refl 0) (by norm_num [solutionSlack]) ⟨by decide, by decide, by decide⟩ ?_ ?_
  · unfold startWorkers
    cases config.threads? <;> rfl
  · rw [hlast]
    decide +kernel

/-- Between the two flat boundaries lie two diagonals, for which the labeler is not asked. -/
theorem survey_asks_in_order_flat :
    ∃ m s', words.survey onlySecond cell ⟨0, some 4⟩ .willing .never (.new 0 false) =
        some (.ok m, s') ∧
      m.get? ⟨[⟨0, 0⟩, ⟨1, 0⟩]⟩ = some false ∧ m.get? ⟨[⟨0, 1⟩, ⟨1, 1⟩]⟩ = some true ∧
      s'.labeler = 2 := by
  have hrun : onlySecond.preflight cell = .ok () := by decide +kernel
  have hsafe : onlySecond.labeler.parallelSafe = false := rfl
  have hends := runsThrough_onlySecond ⟨0, some 4⟩ rfl .willing
  have hplaced : ∀ k ≤ lastPass cell ⟨0, some 4⟩, ∀ b ∈ (Search.new cell k).toList,
      Placed cell b := by
    intro k _ b hb
    obtain ⟨boundary, hboundary, -⟩ := ((Search.mem_toList_new cell k b).mp hb).isValid.toBoundary_eq
      (cell.pos_of_validate (onlySecond.grid_of_preflight cell hrun)).1
    exact ⟨boundary, hboundary⟩
  have hend : onlySecond.MayEnd cell ⟨0, some 4⟩ .willing (.new 0 false)
      (onlySecond.survey cell ⟨0, some 4⟩ .never (.new 0 false)) := by
    rw [MayEnd, hsafe, if_neg Bool.false_ne_true, hends.survey_eq]
  have hasked : onlySecond.traced cell (Search.route cell (lastPass cell ⟨0, some 4⟩ + 1)) =
      [(⟨[⟨0, 0⟩, ⟨1, 0⟩]⟩, [⟨0, 0⟩, ⟨1, 0⟩]), (⟨[⟨0, 1⟩, ⟨1, 1⟩]⟩, [⟨0, 1⟩, ⟨1, 1⟩])] := by
    decide +kernel
  obtain ⟨-, -, -, hlabeler, -, -, m, hm, hanswers, -⟩ := survey_asks_in_order onlySecond cell
    ⟨0, some 4⟩ .willing hrun hends hplaced hsafe (.new 0 false) _ hend
  rw [hasked] at hlabeler hanswers
  obtain ⟨_, ⟨rfl⟩, hfirst⟩ := hanswers 0 _ _ rfl
  obtain ⟨_, ⟨rfl⟩, hsecond⟩ := hanswers 1 _ _ rfl
  refine ⟨m, _, ?_, hfirst, hsecond, hlabeler⟩
  rw [hends.survey_eq, ← hm]

/-- A grid whose top row lies at no number. -/
def tall : Grid Float := ⟨20, 1, 1e308, 2⟩

/-- A pipeline on that grid that asks a person. -/
def prompted : Pipeline Float Prompt.State :=
  ⟨.chain { TraceConfig.default with numPoints := 2 } .default, Prompt.labeler, .canonical, false⟩

/-- Boundaries that reach the top row have no place in the plane. Nothing is drawn for them, and the
run goes on. -/
theorem survey_draws_no_top_row :
    prompted.preflight tall = .ok () ∧ prompted.labeler.parallelSafe = false ∧
      (Search.new tall 0).toList.length = 9 ∧
      ((words.survey prompted tall ⟨0, none⟩ .willing .never
        (.new (.ofBytes [] false) true)).map fun result =>
          result.2.drawings.countP fun drawing => drawing.style = .boundary) = some 4 := by
  refine ⟨by decide +kernel, rfl, by decide +kernel, by decide +kernel⟩

end Pipeline

end BoundaryAtlas
