import BoundaryAtlas.Proofs.Atlas.Passes
import BoundaryAtlas.Proofs.Pipeline.Faults

/-!
# Faults come to the surface

A survey that is not cancelled has visited every boundary. The ones that are missing from its atlas
had a fault, and the tallies count those that are neither infeasible nor timed out as invalid.
-/

namespace BoundaryAtlas

variable {α σ : Type}

/-! ## Atlases of reports -/

namespace Atlas

theorem get?_foldl_eq_none_iff (m : Atlas α) (outcomes : List (Outcome α)) (b : GridBoundary) :
    (outcomes.foldl insertOutcome m).get? b = none ↔
      m.get? b = none ∧ ∀ o ∈ outcomes, o.boundary = b → o.label? = none := by
  induction outcomes generalizing m with
  | nil => simp
  | cons o outcomes ih =>
    rw [List.foldl_cons, ih, get?_insertOutcome, List.forall_mem_cons]
    by_cases h : o.boundary = b
    · simp [h, and_assoc]
    · simp [h]

theorem get?_addPasses_eq_none_iff (reports : Nat → List (Outcome α)) (count kinks : Nat)
    (m : Atlas α) (b : GridBoundary) :
    (m.addPasses reports count kinks).get? b = none ↔
      m.get? b = none ∧ ∀ k, kinks ≤ k → k < kinks + count →
        ∀ o ∈ reports k, o.boundary = b → o.label? = none := by
  induction count generalizing kinks m with
  | zero =>
    simp only [addPasses, Nat.add_zero, iff_self_and]
    intro _ k hk hk'
    omega
  | succ count ih =>
    rw [addPasses, ih, addPass_def, get?_setTally, get?_foldl_eq_none_iff, and_assoc]
    refine and_congr_right fun _ => ⟨?_, ?_⟩
    · rintro ⟨hfirst, hrest⟩ k hk hk'
      rcases Nat.eq_or_lt_of_le hk with rfl | hk
      · exact hfirst
      · exact hrest k hk (by omega)
    · intro h
      exact ⟨h kinks (le_refl _) (by omega), fun k hk hk' => h k (by omega) (by omega)⟩

theorem tally?_foldl (m : Atlas α) (outcomes : List (Outcome α)) (k : Nat) :
    (outcomes.foldl insertOutcome m).tally? k = m.tally? k := by
  induction outcomes generalizing m with
  | nil => rfl
  | cons o outcomes ih => rw [List.foldl_cons, ih, tally?, tally?, tallies_insertOutcome]

theorem tally?_addPass (m : Atlas α) (kinks : Nat) (outcomes : List (Outcome α)) (k : Nat) :
    (m.addPass kinks outcomes).tally? k =
      if kinks = k then some (outcomes.foldl Tally.note .zero) else m.tally? k := by
  rw [addPass_def]
  unfold setTally tally?
  simp only [Std.ExtTreeMap.getElem?_insert, compare_eq_iff_eq]
  split
  · rfl
  · exact m.tally?_foldl outcomes k

theorem tally?_addPasses (reports : Nat → List (Outcome α)) (count kinks : Nat) (m : Atlas α)
    (k : Nat) :
    (m.addPasses reports count kinks).tally? k =
      if kinks ≤ k ∧ k < kinks + count then some ((reports k).foldl Tally.note .zero)
      else m.tally? k := by
  induction count generalizing kinks m with
  | zero =>
    rw [if_neg (by omega)]
    rfl
  | succ count ih =>
    rw [addPasses, ih, tally?_addPass]
    by_cases hk : kinks = k
    · subst hk
      rw [if_neg (by omega), if_pos rfl, if_pos (by omega)]
    · rw [if_neg hk]
      congr 1
      rw [eq_iff_iff]
      omega

theorem addPasses_update (reports : Nat → List (Outcome α)) (j : Nat) (report : List (Outcome α))
    (count kinks : Nat) (m : Atlas α) (h : j < kinks) :
    m.addPasses (Function.update reports j report) count kinks =
      m.addPasses reports count kinks := by
  induction count generalizing kinks m with
  | zero => rfl
  | succ count ih =>
    rw [addPasses, addPasses, ih (kinks + 1) _ (by omega), Function.update_of_ne (by omega)]

end Atlas

namespace Fault

/-- The fault is counted as invalid. -/
def isInvalid : Fault α → Bool
  | .unsatisfiable _ | .solverTimeout _ => false
  | _ => true

end Fault

namespace Pipeline

variable [Scalar α]

/-! ## Reports of a pass -/

theorem label?_eq_none_iff (p : Pipeline α σ) (d : Grid α) (b : GridBoundary)
    (s : Session α σ) :
    (p.labelGrid d b s).1.label? = none ↔ ∃ f, p.fault? d b = some f := by
  cases h : p.fault? d b with
  | none =>
    obtain ⟨label, hlabel⟩ := p.labelGrid_of_no_fault d b s h
    simp [hlabel, Outcome.label?, Outcome.record?]
  | some f => simp [p.labelGrid_of_fault d b s f h, Outcome.label?, Outcome.record?]

theorem invalid_ofOutcome (p : Pipeline α σ) (d : Grid α) (b : GridBoundary) (s : Session α σ) :
    (Tally.ofOutcome (p.labelGrid d b s).1).invalid =
      if (p.fault? d b).any Fault.isInvalid then 1 else 0 := by
  cases h : p.fault? d b with
  | none =>
    obtain ⟨label, hlabel⟩ := p.labelGrid_of_no_fault d b s h
    rw [hlabel]
    rfl
  | some f =>
    rw [p.labelGrid_of_fault d b s f h]
    cases f <;> rfl

theorem invalid_foldl_note (p : Pipeline α σ) (d : Grid α) (order : List GridBoundary)
    (outcomes : List (Outcome α))
    (h : List.Forall₂ (fun b outcome => ∃ s, outcome = (p.labelGrid d b s).1) order outcomes)
    (t : Tally) :
    (outcomes.foldl Tally.note t).invalid =
      t.invalid + order.countP fun b => (p.fault? d b).any Fault.isInvalid := by
  induction h generalizing t with
  | nil => rfl
  | @cons b outcome order outcomes hfirst _ ih =>
    obtain ⟨s, rfl⟩ := hfirst
    have hnote : (t.note (p.labelGrid d b s).1).invalid =
        t.invalid + (Tally.ofOutcome (p.labelGrid d b s).1).invalid := rfl
    rw [List.foldl_cons, ih, hnote, p.invalid_ofOutcome d b s, List.countP_cons]
    omega

/-! ## Runs that are not cancelled -/

/-- The visit of a pass whose end the signal lets pass has labeled all boundaries, in order. -/
theorem visitAll_passStep (p : Pipeline α σ) (d : Grid α) (stop : StopSignal α σ)
    (l : List (List GridPoint)) (found : Array (Outcome α)) (s : Session α σ)
    (h : stop (Search.visitAll (p.passStep d stop) l (found, s)).2 = false) :
    ∃ outcomes, (Search.visitAll (p.passStep d stop) l (found, s)).1.toList =
        found.toList ++ outcomes ∧
      List.Forall₂ (fun b outcome => ∃ s, outcome = (p.labelGrid d b s).1)
        (l.map GridBoundary.mk) outcomes := by
  induction l generalizing found s with
  | nil => exact ⟨[], by simp [Search.visitAll], .nil⟩
  | cons points l ih =>
    cases hstop : stop s with
    | true =>
      have hend : Search.visitAll (p.passStep d stop) (points :: l) (found, s) = (found, s) := by
        simp [Search.visitAll, passStep_def, hstop]
      rw [hend, hstop] at h
      cases h
    | false =>
      have hnext : Search.visitAll (p.passStep d stop) (points :: l) (found, s) =
          Search.visitAll (p.passStep d stop) l
            (found.push (p.labelGrid d ⟨points⟩ s).1, (p.labelGrid d ⟨points⟩ s).2) := by
        simp [Search.visitAll, passStep_def, hstop]
      rw [hnext] at h ⊢
      obtain ⟨outcomes, hfound, hall⟩ := ih _ _ h
      refine ⟨(p.labelGrid d ⟨points⟩ s).1 :: outcomes, by simp [hfound], ?_⟩
      exact .cons ⟨s, rfl⟩ hall

theorem collects_of_pass (p : Pipeline α σ) (d : Grid α) (stop : StopSignal α σ) (kinks : Nat)
    (s : Session α σ) (h : (p.pass d stop kinks s).1.cancelled = false) :
    p.Collects d kinks (p.pass d stop kinks s).1.outcomes := by
  simp only [pass_def, Search.visit_new] at h ⊢
  obtain ⟨outcomes, hfound, hall⟩ := p.visitAll_passStep d stop _ _ _ h
  refine ⟨_, .refl _, ?_⟩
  rw [Search.toList_new]
  simpa [hfound] using hall

theorem passes_eq_ok (p : Pipeline α σ) (d : Grid α) (stop : StopSignal α σ) (count kinks : Nat)
    (m m' : Atlas α) (s : Session α σ) (h : (p.passes d stop count kinks m s).1 = .ok m') :
    ∃ reports : Nat → List (Outcome α),
      (∀ k, kinks ≤ k → k < kinks + count → p.Collects d k (reports k)) ∧
      m' = m.addPasses reports count kinks := by
  induction count generalizing kinks m s with
  | zero =>
    cases h
    refine ⟨fun _ => [], ?_, rfl⟩
    intro k hk hk'
    omega
  | succ count ih =>
    simp only [passes_succ] at h
    cases hcancelled : (p.pass d stop kinks s).1.cancelled with
    | true => simp [hcancelled] at h
    | false =>
      simp only [hcancelled, Bool.false_eq_true, if_false] at h
      obtain ⟨reports, hreports, rfl⟩ := ih _ _ _ h
      refine ⟨Function.update reports kinks (p.pass d stop kinks s).1.outcomes, ?_, ?_⟩
      · intro k hk hk'
        rcases Nat.eq_or_lt_of_le hk with rfl | hk
        · rw [Function.update_self]
          exact p.collects_of_pass d stop _ s hcancelled
        · rw [Function.update_of_ne (by omega)]
          exact hreports k hk (by omega)
      · rw [Atlas.addPasses, Function.update_self, Atlas.addPasses_update _ _ _ _ _ _ (by omega)]

theorem mayAnswer_of_survey (p : Pipeline α σ) (d : Grid α) (config : SurveyConfig)
    (stop : StopSignal α σ) (s : Session α σ) (m : Atlas α)
    (h : (p.survey d config stop s).1 = .ok m) : p.MayAnswer d config (.ok m) := by
  rw [survey_def] at h
  unfold MayAnswer
  cases hrun : p.preflight d with
  | error f => simp [hrun] at h
  | ok u =>
    simp only [hrun] at h
    obtain ⟨reports, hreports, rfl⟩ := p.passes_eq_ok d stop _ _ _ m s h
    exact ⟨reports, fun k hk => hreports k (Nat.zero_le k) (by unfold lastPass at hk; omega), rfl⟩

/-! ## What is missing from an atlas -/

theorem Collects.labels {p : Pipeline α σ} {d : Grid α} {kinks : Nat} {outcomes : List (Outcome α)}
    (h : p.Collects d kinks outcomes) : ∀ o ∈ outcomes, ∃ b s, o = (p.labelGrid d b s).1 := by
  obtain ⟨order, -, hall⟩ := h
  intro o ho
  obtain ⟨i, hi, rfl⟩ := List.getElem_of_mem ho
  have hb : i < order.length := hall.length_eq ▸ hi
  exact ⟨order[i], hall.get hb hi⟩

theorem Collects.visits {p : Pipeline α σ} {d : Grid α} {kinks : Nat} {outcomes : List (Outcome α)}
    (h : p.Collects d kinks outcomes) :
    ∀ b ∈ (Search.new d kinks).toList, ∃ s, (p.labelGrid d b s).1 ∈ outcomes := by
  obtain ⟨order, hperm, hall⟩ := h
  intro b hb
  obtain ⟨i, hi, rfl⟩ := List.getElem_of_mem (hperm.mem_iff.mpr hb)
  obtain ⟨s, hs⟩ := hall.get hi (hall.length_eq ▸ hi)
  exact ⟨s, hs ▸ List.getElem_mem _⟩

theorem missing_iff (p : Pipeline α σ) (d : Grid α) (config : SurveyConfig)
    (reports : Nat → List (Outcome α))
    (hreports : ∀ k ≤ lastPass d config, p.Collects d k (reports k))
    (k : Nat) (hk : k ≤ lastPass d config) (b : GridBoundary)
    (hb : b ∈ (Search.new d k).toList) :
    ((Atlas.empty d config.maxKinks).addPasses reports (lastPass d config + 1) 0).get? b = none ↔
      ∃ f, p.fault? d b = some f := by
  rw [Atlas.get?_addPasses_eq_none_iff, Atlas.get?_empty, and_iff_right rfl]
  constructor
  · intro h
    obtain ⟨s, hs⟩ := (hreports k hk).visits b hb
    rw [← p.label?_eq_none_iff d b s]
    exact h k (Nat.zero_le k) (by omega) _ hs (p.boundary_labelGrid d b s)
  · rintro hfault j - hj o ho rfl
    obtain ⟨c, s, rfl⟩ := (hreports j (by omega)).labels o ho
    rw [boundary_labelGrid] at hfault
    exact (p.label?_eq_none_iff d c s).mpr hfault

/-- **Surfacing.** A fault of the run is its answer. If there is an atlas, then exactly the
boundaries with a fault are missing from it, in whatever order they were labeled and whether or not
the run could have been cancelled. Such a fault rules out the boundary only, unless the boundary
has no place in the plane or the traces have no length, which the checks before the run let pass.
The tally of a pass counts the faults that are neither infeasible nor timed out as invalid. -/
theorem survey_surfaces (p : Pipeline α σ) (d : Grid α) (config : SurveyConfig)
    (stop : StopSignal α σ) (s : Session α σ) :
    (∀ f, p.preflight d = .error f → (p.survey d config stop s).1 = .error f) ∧
    ∀ m, (p.survey d config stop s).1 = .ok m ∨ p.MayAnswer d config (.ok m) →
      ∀ k ≤ lastPass d config,
        (∀ b ∈ (Search.new d k).toList,
          (m.get? b = none ↔ ∃ f, p.fault? d b = some f) ∧
          ∀ f, p.fault? d b = some f → (∀ s, (p.labelGrid d b s).1 = .failed b f) ∧
            (f.isLocal = true ↔ Placed d b ∧ Synthesizer.horizonOk p.horizon = true)) ∧
        ∃ t, m.tally? k = some t ∧ t.invalid =
          (Search.new d k).toList.countP fun b => (p.fault? d b).any Fault.isInvalid := by
  constructor
  · intro f hrun
    rw [survey_def, hrun]
  · intro m hm k hk
    have hanswer : p.MayAnswer d config (.ok m) :=
      hm.elim (p.mayAnswer_of_survey d config stop s m) id
    unfold MayAnswer at hanswer
    cases hrun : p.preflight d with
    | error f => simp [hrun] at hanswer
    | ok u =>
      simp only [hrun, Except.ok.injEq] at hanswer
      obtain ⟨reports, hreports, rfl⟩ := hanswer
      have hconfig : p.synth.config.validate = .ok () := p.config_of_preflight d hrun
      refine ⟨fun b hb => ⟨p.missing_iff d config reports hreports k hk b hb, ?_⟩, ?_⟩
      · intro f hf
        exact ⟨fun s => p.labelGrid_of_fault d b s f hf,
          p.isLocal_fault_iff d k b ((Search.mem_toList_new d k b).mp hb) hconfig f hf⟩
      · obtain ⟨order, hperm, hall⟩ := hreports k hk
        refine ⟨(reports k).foldl Tally.note .zero, ?_, ?_⟩
        · rw [Atlas.tally?_addPasses, if_pos (by omega)]
        · rw [p.invalid_foldl_note d order _ hall, hperm.countP_eq]
          exact Nat.zero_add _

/-- A grid of one cell. -/
def cell : Grid ℚ := ⟨1, 1, 1, 1⟩

/-- A pipeline on that cell whose traces cannot follow a diagonal. -/
def steep : Pipeline ℚ Unit :=
  onGrid (.chain ⟨1 / 10, 2, some (3 / 4), 0, 1, .reject⟩ ⟨none, 0, fun _ => 0⟩)
    (.ofFn "always" fun _ => true) cell

theorem survey_surfaces_steep :
    ∃ m, (steep.survey cell ⟨0, none⟩ .never (.new () false)).1 = .ok m ∧
      m.get? ⟨[⟨0, 0⟩, ⟨1, 1⟩]⟩ = none ∧ m.get? ⟨[⟨0, 0⟩, ⟨1, 0⟩]⟩ ≠ none ∧
      (∀ b ∈ (Search.new cell 0).toList, m.get? b = none →
        ∃ f, (∀ s, (steep.labelGrid cell b s).1 = .failed b f) ∧ f.isLocal = true) ∧
      ∃ t, m.tally? 0 = some t ∧ t.invalid = 0 := by
  have hrun : steep.preflight cell = .ok () := by decide +kernel
  have hhorizon : 0 < steep.horizon := by decide +kernel
  have hdiagonal : ⟨[⟨0, 0⟩, ⟨1, 1⟩]⟩ ∈ (Search.new cell 0).toList := by decide +kernel
  have hflat : ⟨[⟨0, 0⟩, ⟨1, 0⟩]⟩ ∈ (Search.new cell 0).toList := by decide +kernel
  have hfault : steep.fault? cell ⟨[⟨0, 0⟩, ⟨1, 1⟩]⟩ = some (.unsatisfiable 1) := by decide +kernel
  have hnone : steep.fault? cell ⟨[⟨0, 0⟩, ⟨1, 0⟩]⟩ = none := by decide +kernel
  cases hsurvey : (steep.survey cell ⟨0, none⟩ .never (.new () false)).1 with
  | error f =>
    have hok : (steep.survey cell ⟨0, none⟩ .never (.new () false)).1.isOk = true := by
      decide +kernel
    simp [hsurvey, Except.isOk, Except.toBool] at hok
  | ok m =>
    obtain ⟨-, h⟩ := survey_surfaces steep cell ⟨0, none⟩ .never (.new () false)
    obtain ⟨hmissing, t, ht, hinvalid⟩ := h m (.inl hsurvey) 0 (Nat.zero_le _)
    refine ⟨m, rfl, (hmissing _ hdiagonal).1.mpr ⟨_, hfault⟩, ?_, ?_, t, ht, ?_⟩
    · rw [Ne, (hmissing _ hflat).1, hnone]
      simp
    · intro b hb hget
      obtain ⟨f, hf⟩ := (hmissing b hb).1.mp hget
      have hcanonical := (Search.mem_toList_new cell 0 b).mp hb
      exact ⟨f, ((hmissing b hb).2 f hf).1,
        steep.isLocal_fault_of_pos cell 0 b hcanonical hrun hhorizon f hf⟩
    · rw [hinvalid]
      decide +kernel

/-- A grid so narrow that traces of length zero pass as traces over its width. -/
def sliver : Grid Float := ⟨1e-10, 1, 0.5, 1⟩

/-- A pipeline whose traces have length zero. -/
def instant : Pipeline Float Unit :=
  ⟨.chain .default .default, .ofFn "always" fun _ => true, ⟨⟨0, 0⟩, ⟨0, 1⟩⟩, false⟩

/-- The checks before the run let the length pass. Each boundary then has a fault that rules out the
whole run, and is counted as invalid. -/
theorem survey_counts_instant :
    ∃ m, (instant.survey sliver ⟨0, none⟩ .never (.new () false)).1 = .ok m ∧
      m.tally? 0 = some ⟨0, 0, 0, 0, 4⟩ ∧
      ∃ b ∈ (Search.new sliver 0).toList, m.get? b = none ∧
        (instant.labelGrid sliver b (.new () false)).1 = .failed b (.param (.horizon 0)) ∧
        (Fault.param (.horizon (0 : Float))).isLocal = false := by
  have hlabel : (instant.labelGrid sliver ⟨[⟨0, 0⟩, ⟨1, 0⟩]⟩ (.new () false)).1 =
      .failed ⟨[⟨0, 0⟩, ⟨1, 0⟩]⟩ (.param (.horizon 0)) := by decide +kernel
  have hsurvey : (instant.survey sliver ⟨0, none⟩ .never (.new () false)).1.toOption.map
      (fun m => (m.tally? 0, m.get? ⟨[⟨0, 0⟩, ⟨1, 0⟩]⟩)) = some (some ⟨0, 0, 0, 0, 4⟩, none) := by
    decide +kernel
  cases h : (instant.survey sliver ⟨0, none⟩ .never (.new () false)).1 with
  | error f => simp [h, Except.toOption] at hsurvey
  | ok m =>
    obtain ⟨htally, hget⟩ : m.tally? 0 = some ⟨0, 0, 0, 0, 4⟩ ∧
        m.get? ⟨[⟨0, 0⟩, ⟨1, 0⟩]⟩ = none := by
      simpa [h, Except.toOption] using hsurvey
    exact ⟨m, rfl, htally, _, by decide +kernel, hget, hlabel, rfl⟩

end Pipeline

end BoundaryAtlas
