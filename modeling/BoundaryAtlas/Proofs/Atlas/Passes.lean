import BoundaryAtlas.Proofs.Atlas.Contents
import BoundaryAtlas.Proofs.Grid.Enumeration
import BoundaryAtlas.Proofs.Pipeline.Labeling
import BoundaryAtlas.Atlas.Survey

/-!
# The passes of a survey

Workers that share a pass bring its outcomes in any order. If the outcome of a boundary is fixed,
then the atlas is the one that the boundaries in order give, and it lists the same records.
-/

namespace BoundaryAtlas

variable {α σ : Type}

/-! ## Reports -/

/-- Adds the reports of `count` passes from `kinks` on. -/
def Atlas.addPasses (reports : Nat → List (Outcome α)) :
    (count kinks : Nat) → Atlas α → Atlas α
  | 0, _, m => m
  | count + 1, kinks, m => addPasses reports count (kinks + 1) (m.addPass kinks (reports kinks))

namespace Pipeline

variable [Scalar α]

/-- The number of kinks of the last pass. -/
def lastPass (d : Grid α) (config : SurveyConfig) : Nat := min config.maxKinks d.kinkLimit

/-- Outcomes that workers may bring for a pass. Each boundary is labeled once, in whatever session
its worker finds, and the outcomes come in any order. -/
def Collects (p : Pipeline α σ) (d : Grid α) (kinks : Nat) (outcomes : List (Outcome α)) : Prop :=
  ∃ order, order.Perm (Search.new d kinks).toList ∧
    List.Forall₂ (fun b outcome => ∃ s, outcome = (p.labelGrid d b s).1) order outcomes

/-- What a survey may answer when workers share its passes. -/
def MayAnswer (p : Pipeline α σ) (d : Grid α) (config : SurveyConfig)
    (answer : Except (Fault α) (Atlas α)) : Prop :=
  match p.preflight d with
  | .error fault => answer = .error fault
  | .ok () => ∃ reports : Nat → List (Outcome α),
      (∀ k ≤ lastPass d config, p.Collects d k (reports k)) ∧
      answer = .ok ((Atlas.empty d config.maxKinks).addPasses reports (lastPass d config + 1) 0)

/-! ## Passes in order -/

theorem pass_never (p : Pipeline α σ) (d : Grid α) (kinks : Nat) (s : Session α σ) :
    p.pass d .never kinks s =
      (⟨(p.labelAll d (Search.new d kinks).toList s).1.toList, false⟩,
        (p.labelAll d (Search.new d kinks).toList s).2) := by
  have hstep : p.passStep d .never = fun state b =>
      (true, state.1.push (p.labelGrid d b state.2).1, (p.labelGrid d b state.2).2) := rfl
  rw [pass_def, hstep, Search.visit_new, Search.visitAll_eq_foldl, ← Search.toList_new,
    labelAll_def]
  rfl

theorem labelAll_eq (p : Pipeline α σ) (d : Grid α) (f : GridBoundary → Outcome α)
    (l : List GridBoundary) (hf : ∀ b ∈ l, ∀ s, (p.labelGrid d b s).1 = f b) (s : Session α σ) :
    (p.labelAll d l s).1.toList = l.map f := by
  have hfold : ∀ (found : Array (Outcome α)) (s : Session α σ),
      (l.foldl (fun state b => (state.1.push (p.labelGrid d b state.2).1,
        (p.labelGrid d b state.2).2)) (found, s)).1.toList = found.toList ++ l.map f := by
    induction l with
    | nil => simp
    | cons b l ih =>
      intro found s
      obtain ⟨hb, hl⟩ := List.forall_mem_cons.mp hf
      rw [List.foldl_cons, ih hl, hb]
      simp
  rw [labelAll_def]
  exact hfold #[] s

theorem passes_never (p : Pipeline α σ) (d : Grid α) (f : GridBoundary → Outcome α)
    (count kinks : Nat)
    (hf : ∀ k < kinks + count, ∀ b ∈ (Search.new d k).toList, ∀ s, (p.labelGrid d b s).1 = f b)
    (m : Atlas α) (s : Session α σ) :
    (p.passes d .never count kinks m s).1 =
      .ok (m.addPasses (fun k => (Search.new d k).toList.map f) count kinks) := by
  induction count generalizing kinks m s with
  | zero => rfl
  | succ count ih =>
    simp only [passes_succ, pass_never, p.labelAll_eq d f _ (hf kinks (by omega))]
    exact ih _ (fun k hk => hf k (by omega)) _ _

/-! ## Passes in any order -/

theorem forall₂_labelGrid_iff (p : Pipeline α σ) (d : Grid α) (f : GridBoundary → Outcome α)
    (s : Session α σ) (order : List GridBoundary)
    (hf : ∀ b ∈ order, ∀ s, (p.labelGrid d b s).1 = f b) (outcomes : List (Outcome α)) :
    List.Forall₂ (fun b outcome => ∃ s, outcome = (p.labelGrid d b s).1) order outcomes ↔
      outcomes = order.map f := by
  induction order generalizing outcomes with
  | nil => simp
  | cons b order ih =>
    obtain ⟨hb, horder⟩ := List.forall_mem_cons.mp hf
    simp only [List.forall₂_cons_left_iff, ih horder, hb, exists_const_iff, List.map_cons]
    constructor
    · rintro ⟨_, rest, ⟨-, rfl⟩, rfl, rfl⟩
      rfl
    · rintro rfl
      exact ⟨_, _, ⟨⟨s⟩, rfl⟩, rfl, rfl⟩

theorem Collects.perm {p : Pipeline α σ} {d : Grid α} {kinks : Nat} {outcomes : List (Outcome α)}
    (h : p.Collects d kinks outcomes) (f : GridBoundary → Outcome α)
    (hf : ∀ b ∈ (Search.new d kinks).toList, ∀ s, (p.labelGrid d b s).1 = f b) (s : Session α σ) :
    outcomes.Perm ((Search.new d kinks).toList.map f) := by
  obtain ⟨order, hperm, hall⟩ := h
  rw [(p.forall₂_labelGrid_iff d f s order (fun b hb => hf b (hperm.subset hb)) outcomes).mp hall]
  exact hperm.map f

theorem collects_in_order (p : Pipeline α σ) (d : Grid α) (f : GridBoundary → Outcome α)
    (kinks : Nat) (hf : ∀ b ∈ (Search.new d kinks).toList, ∀ s, (p.labelGrid d b s).1 = f b)
    (s : Session α σ) : p.Collects d kinks ((Search.new d kinks).toList.map f) :=
  ⟨_, .refl _, (p.forall₂_labelGrid_iff d f s _ hf _).mpr rfl⟩

end Pipeline

namespace Tally

theorem note_comm (t : Tally) (o o' : Outcome α) : (t.note o).note o' = (t.note o').note o := by
  have hadd : ∀ s t : Tally, s + t = ⟨s.labeled + t.labeled, s.positives + t.positives,
    s.infeasible + t.infeasible, s.timedOut + t.timedOut, s.invalid + t.invalid⟩ := fun _ _ => rfl
  simp only [note, hadd, Tally.mk.injEq]
  omega

end Tally

namespace Atlas

theorem addPass_perm (f : GridBoundary → Outcome α) (hf : ∀ b, (f b).boundary = b) (kinks : Nat)
    (m : Atlas α) (order : List GridBoundary) (outcomes : List (Outcome α))
    (h : outcomes.Perm (order.map f)) :
    m.addPass kinks outcomes = m.addPass kinks (order.map f) := by
  have hlabels : outcomes.foldl insertOutcome m = (order.map f).foldl insertOutcome m := by
    apply h.foldl_eq'
    intro o ho o' ho' m
    have hmem : ∀ o ∈ outcomes, o = f o.boundary := by
      intro o ho
      obtain ⟨b, -, rfl⟩ := List.mem_map.mp (h.subset ho)
      rw [hf]
    by_cases hne : o.boundary = o'.boundary
    · rw [hmem o ho, hmem o' ho', hne]
    · exact insertOutcome_comm m o o' hne
  have htally : outcomes.foldl Tally.note .zero = (order.map f).foldl Tally.note .zero :=
    h.foldl_eq' (fun o _ o' _ t => Tally.note_comm t o o') _
  rw [addPass_def, addPass_def, hlabels, htally]

theorem addPasses_congr (reports reports' : Nat → List (Outcome α)) (count kinks : Nat)
    (m : Atlas α)
    (h : ∀ k < kinks + count, ∀ m : Atlas α,
      m.addPass k (reports k) = m.addPass k (reports' k)) :
    m.addPasses reports count kinks = m.addPasses reports' count kinks := by
  induction count generalizing kinks m with
  | zero => rfl
  | succ count ih =>
    rw [addPasses, addPasses, h kinks (by omega)]
    exact ih (kinks + 1) _ fun k hk => h k (by omega)

/-! ## What a survey finds -/

theorem get?_addPass (f : GridBoundary → Outcome α) (hf : ∀ b, (f b).boundary = b) (kinks : Nat)
    (m : Atlas α) (l : List GridBoundary) (b : GridBoundary) :
    (m.addPass kinks (l.map f)).get? b =
      (m.get? b).or (if b ∈ l then (f b).label? else none) := by
  rw [addPass_def, get?_setTally]
  induction l generalizing m with
  | nil => simp
  | cons c l ih =>
    rw [List.map_cons, List.foldl_cons, ih, get?_insertOutcome, hf]
    by_cases hc : c = b
    · subst hc
      simp only [if_true, List.mem_cons_self]
      cases m.get? c <;> cases (f c).label? <;> simp
    · have hmem : b ∈ c :: l ↔ b ∈ l := by simp [Ne.symm hc]
      simp only [hc, if_false, hmem]

theorem get?_addPasses (f : GridBoundary → Outcome α) (hf : ∀ b, (f b).boundary = b)
    (boundaries : Nat → List GridBoundary) (count kinks : Nat) (m : Atlas α) (b : GridBoundary)
    (label : Bool) :
    (m.addPasses (fun k => (boundaries k).map f) count kinks).get? b = some label ↔
      m.get? b = some label ∨ m.get? b = none ∧ (f b).label? = some label ∧
        ∃ k, kinks ≤ k ∧ k < kinks + count ∧ b ∈ boundaries k := by
  induction count generalizing kinks m with
  | zero =>
    rw [addPasses]
    constructor
    · exact Or.inl
    · rintro (h | ⟨-, -, k, h, h', -⟩)
      · exact h
      · omega
  | succ count ih =>
    rw [addPasses, ih, get?_addPass f hf]
    have hsplit : (∃ k, kinks ≤ k ∧ k < kinks + (count + 1) ∧ b ∈ boundaries k) ↔
        b ∈ boundaries kinks ∨ ∃ k, kinks + 1 ≤ k ∧ k < kinks + 1 + count ∧ b ∈ boundaries k := by
      constructor
      · rintro ⟨k, h, h', hb⟩
        rcases Nat.eq_or_lt_of_le h with rfl | h
        · exact Or.inl hb
        · exact Or.inr ⟨k, h, by omega, hb⟩
      · rintro (hb | ⟨k, h, h', hb⟩)
        · exact ⟨kinks, le_refl _, by omega, hb⟩
        · exact ⟨k, by omega, by omega, hb⟩
    rw [hsplit]
    cases m.get? b with
    | some _ => simp
    | none =>
      by_cases hb : b ∈ boundaries kinks
      · cases (f b).label? <;> simp [hb]
      · simp [hb]

/-- The atlas of a survey in which each boundary has a fixed outcome. -/
def ofOutcomes (d : Grid α) (config : SurveyConfig) (f : GridBoundary → Outcome α) : Atlas α :=
  (empty d config.maxKinks).addPasses (fun k => (Search.new d k).toList.map f)
    (Pipeline.lastPass d config + 1) 0

theorem get?_ofOutcomes (d : Grid α) (config : SurveyConfig) (f : GridBoundary → Outcome α)
    (hf : ∀ b, (f b).boundary = b) (b : GridBoundary) (label : Bool) :
    (ofOutcomes d config f).get? b = some label ↔ (f b).label? = some label ∧
      ∃ k ≤ Pipeline.lastPass d config, b ∈ (Search.new d k).toList := by
  rw [ofOutcomes, get?_addPasses f hf (fun k => (Search.new d k).toList), get?_empty]
  simp only [Nat.zero_le, Nat.zero_add, Nat.lt_succ_iff, true_and, reduceCtorEq, false_or]

theorem mem_recordsWith_ofOutcomes (d : Grid α) (config : SurveyConfig)
    (f : GridBoundary → Outcome α) (hf : ∀ b, (f b).boundary = b) (kinks : Nat) (r : Record) :
    r ∈ (ofOutcomes d config f).recordsWith kinks ↔ (f r.boundary).label? = some r.label ∧
      kinks ≤ Pipeline.lastPass d config ∧ r.kinks = kinks ∧
      r.boundary ∈ (Search.new d kinks).toList := by
  have hkinks : ∀ k, r.boundary ∈ (Search.new d k).toList → r.boundary.kinks = k :=
    fun k h => ((Search.mem_toList_new d k _).mp h).kinks_eq
  rw [mem_recordsWith, get?_ofOutcomes d config f hf]
  constructor
  · rintro ⟨⟨hlabel, k, hk, hmem⟩, hr, hb⟩
    obtain rfl : k = kinks := by rw [← hb, hkinks k hmem]
    exact ⟨hlabel, hk, hr, hmem⟩
  · rintro ⟨hlabel, hk, hr, hmem⟩
    exact ⟨⟨hlabel, kinks, hk, hmem⟩, hr, hkinks kinks hmem⟩

theorem recordsWith_ofOutcomes (d : Grid α) (config : SurveyConfig) (f : GridBoundary → Outcome α)
    (hf : ∀ b r, (f b).record? = some r → r = ⟨b, b.kinks, r.label⟩)
    (hb : ∀ b, (f b).boundary = b) (kinks : Nat) (hk : kinks ≤ Pipeline.lastPass d config) :
    (ofOutcomes d config f).recordsWith kinks =
      ((Search.new d kinks).toList.map f).filterMap Outcome.record? := by
  have hsorted : Record.Sorted (((Search.new d kinks).toList.map f).filterMap Outcome.record?) := by
    rw [List.filterMap_map]
    refine (Search.toList_new_sorted d kinks).filterMap _ fun b b' hbb' r hr r' hr' => ?_
    rw [hf b r hr, hf b' r' hr']
    exact hbb'
  apply ((ofOutcomes d config f).recordsWith_sorted kinks).eq_of_mem_iff hsorted
  intro r
  rw [mem_recordsWith_ofOutcomes d config f hb, List.filterMap_map, List.mem_filterMap]
  constructor
  · rintro ⟨hlabel, -, hr, hmem⟩
    obtain ⟨r', hr', hrlabel⟩ := Option.map_eq_some_iff.mp hlabel
    have hr'_eq := hf _ _ hr'
    have hkinks := ((Search.mem_toList_new d kinks _).mp hmem).kinks_eq
    refine ⟨r.boundary, hmem, ?_⟩
    rw [Function.comp_apply, hr', hr'_eq, hrlabel, hkinks, ← hr]
  · rintro ⟨b, hmem, hr⟩
    have hr_eq := hf b r hr
    have hkinks := ((Search.mem_toList_new d kinks b).mp hmem).kinks_eq
    rw [Function.comp_apply] at hr
    rw [hr_eq]
    exact ⟨by simp [Outcome.label?, hr], hk, hkinks, hmem⟩

end Atlas

/-! ## The survey -/

/-- If the outcome of each boundary is fixed, then a survey that is not cancelled gives the atlas of
these outcomes, whoever shares its passes. -/
theorem Pipeline.survey_of_fixed [Scalar α] (p : Pipeline α σ) (d : Grid α) (config : SurveyConfig)
    (hrun : p.preflight d = .ok ()) (f : GridBoundary → Outcome α) (hb : ∀ b, (f b).boundary = b)
    (hf : ∀ k ≤ lastPass d config, ∀ b ∈ (Search.new d k).toList, ∀ s,
      (p.labelGrid d b s).1 = f b) (s : Session α σ) :
    (p.survey d config .never s).1 = .ok (.ofOutcomes d config f) ∧
      ∀ answer, p.MayAnswer d config answer ↔ answer = .ok (.ofOutcomes d config f) := by
  constructor
  · rw [survey_def, hrun]
    refine p.passes_never d f _ _ (fun k hk => ?_) _ s
    exact hf k (by rw [lastPass]; omega)
  · intro answer
    rw [MayAnswer, hrun]
    constructor
    · rintro ⟨reports, hreports, rfl⟩
      congr 1
      apply Atlas.addPasses_congr
      intro k hk m
      have hk : k ≤ lastPass d config := by omega
      exact Atlas.addPass_perm f hb k m _ _ ((hreports k hk).perm f (hf k hk) s)
    · rintro rfl
      exact ⟨_, fun k hk => p.collects_in_order d f k (hf k hk) s, rfl⟩

end BoundaryAtlas
