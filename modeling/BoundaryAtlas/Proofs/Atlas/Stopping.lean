import BoundaryAtlas.Proofs.Atlas.InOrder

/-!
# Surveys that are stopped

On one thread, the signal is looked at before each boundary and once more after each pass. A survey
ends at the first look that finds it set, and then there is no atlas. If no look finds it set, then
the survey is the one that is not cancelled.
-/

namespace BoundaryAtlas

variable {α σ : Type}

/-- The signal that is set in the `n`-th call of a labeler that counts them. -/
def StopSignal.afterCalls (n : Nat) : StopSignal α (Nat × σ) := fun s => n ≤ s.labeler.1

namespace Pipeline

variable [Scalar α] (p : Pipeline α σ) (d : Grid α)

/-! ## Looks at the signal -/

/-- The sessions in which the signal is looked at on the way through a list of boundaries. -/
def looks : List GridBoundary → Session α σ → List (Session α σ)
  | [], s => [s]
  | b :: l, s => s :: looks l (p.labelGrid d b s).2

theorem find?_looks_of_stop (stop : StopSignal α σ) (l : List GridBoundary) (s : Session α σ)
    (h : stop s = true) : (p.looks d l s).find? stop = some s := by
  cases l <;> exact List.find?_cons_of_pos h

theorem find?_looks_append (stop : StopSignal α σ) (l l' : List GridBoundary) (s : Session α σ) :
    (p.looks d (l ++ l') s).find? stop =
      ((p.looks d l s).find? stop).or ((p.looks d l' (p.labelAll d l s).2).find? stop) := by
  induction l generalizing s with
  | nil =>
    change (p.looks d l' s).find? stop = ([s].find? stop).or ((p.looks d l' s).find? stop)
    cases h : stop s with
    | true => simp [h, p.find?_looks_of_stop d stop l' s h]
    | false => simp [h]
  | cons b l ih =>
    rw [labelAll_cons, List.cons_append, looks, looks]
    cases h : stop s with
    | true => simp [h]
    | false => simp [h, ih]

theorem session_mem_looks (l : List GridBoundary) (s : Session α σ) :
    (p.labelAll d l s).2 ∈ p.looks d l s := by
  induction l generalizing s with
  | nil => exact List.mem_singleton_self s
  | cons b l ih =>
    rw [labelAll_cons]
    exact List.mem_cons_of_mem s (ih _)

/-! ## Passes that are stopped -/

theorem passStep_of_stop (stop : StopSignal α σ) (found : Array (Outcome α)) (s : Session α σ)
    (b : GridBoundary) (h : stop s = true) :
    p.passStep d stop (found, s) b = (false, found, s) := by
  simp [passStep_def, h]

theorem passStep_of_not_stop (stop : StopSignal α σ) (found : Array (Outcome α))
    (s : Session α σ) (b : GridBoundary) (h : stop s = false) :
    p.passStep d stop (found, s) b =
      (true, found.push (p.labelGrid d b s).1, (p.labelGrid d b s).2) := by
  simp [passStep_def, h]

theorem visitAll_of_stop (stop : StopSignal α σ) (l : List (List GridPoint))
    (found : Array (Outcome α)) (s s' : Session α σ)
    (h : (p.looks d (l.map .mk) s).find? stop = some s') :
    (Search.visitAll (p.passStep d stop) l (found, s)).2 = s' := by
  induction l generalizing found s with
  | nil => exact List.mem_singleton.mp (List.mem_of_find?_eq_some h) |>.symm
  | cons points l ih =>
    rw [List.map_cons, looks] at h
    rw [Search.visitAll]
    cases hs : stop s with
    | true =>
      rw [p.passStep_of_stop d stop found s _ hs]
      rw [List.find?_cons_of_pos hs] at h
      exact Option.some_inj.mp h
    | false =>
      rw [p.passStep_of_not_stop d stop found s _ hs]
      rw [List.find?_cons_of_neg (by simp [hs])] at h
      exact ih _ _ h

theorem visitAll_of_not_stop (stop : StopSignal α σ) (l : List (List GridPoint))
    (found : Array (Outcome α)) (s : Session α σ)
    (h : (p.looks d (l.map .mk) s).find? stop = none) :
    Search.visitAll (p.passStep d stop) l (found, s) =
      Search.visitAll (p.passStep d .never) l (found, s) := by
  induction l generalizing found s with
  | nil => rfl
  | cons points l ih =>
    rw [List.map_cons, looks] at h
    have hs : stop s = false := by simpa using List.find?_eq_none.mp h s List.mem_cons_self
    rw [List.find?_cons_of_neg (by simp [hs])] at h
    rw [Search.visitAll, Search.visitAll, p.passStep_of_not_stop d stop found s _ hs,
      p.passStep_of_not_stop d .never found s _ rfl]
    exact ih _ _ h

theorem pass_of_stop (stop : StopSignal α σ) (kinks : Nat) (s s' : Session α σ)
    (h : (p.looks d (Search.new d kinks).toList s).find? stop = some s') :
    (p.pass d stop kinks s).1.cancelled = true ∧ (p.pass d stop kinks s).2 = s' := by
  rw [Search.toList_new] at h
  have hend := p.visitAll_of_stop d stop _ #[] s s' h
  simp only [pass_def, Search.visit_new, hend, and_true]
  exact List.find?_some h

theorem pass_of_not_stop (stop : StopSignal α σ) (kinks : Nat) (s : Session α σ)
    (h : (p.looks d (Search.new d kinks).toList s).find? stop = none) :
    p.pass d stop kinks s = p.pass d .never kinks s := by
  have hend : stop (p.pass d .never kinks s).2 = false := by
    rw [pass_never]
    simpa using List.find?_eq_none.mp h _ (p.session_mem_looks d _ s)
  rw [Search.toList_new] at h
  simp only [pass_def, Search.visit_new, p.visitAll_of_not_stop d stop _ #[] s h] at hend ⊢
  rw [hend]
  rfl

theorem passes_of_not_stop (stop : StopSignal α σ) (count kinks : Nat) (m : Atlas α)
    (s : Session α σ)
    (h : (p.looks d ((List.range' kinks count).flatMap fun k => (Search.new d k).toList) s).find?
      stop = none) :
    p.passes d stop count kinks m s = p.passes d .never count kinks m s := by
  induction count generalizing kinks m s with
  | zero => rfl
  | succ count ih =>
    rw [List.range'_succ, List.flatMap_cons, find?_looks_append, Option.or_eq_none_iff] at h
    simp only [passes_succ, p.pass_of_not_stop d stop kinks s h.1, pass_never]
    exact ih (kinks + 1) _ _ h.2

theorem passes_of_stop (stop : StopSignal α σ) (count kinks : Nat) (m : Atlas α)
    (s s' : Session α σ)
    (h : (p.looks d ((List.range' kinks (count + 1)).flatMap fun k => (Search.new d k).toList)
      s).find? stop = some s') :
    p.passes d stop (count + 1) kinks m s = (.error .cancelled, s') := by
  induction count generalizing kinks m s with
  | zero =>
    have hpass := p.pass_of_stop d stop kinks s s' (by simpa using h)
    simp [passes_succ, hpass.1, hpass.2]
  | succ count ih =>
    rw [List.range'_succ, List.flatMap_cons, find?_looks_append] at h
    rw [passes_succ]
    cases hfirst : (p.looks d (Search.new d kinks).toList s).find? stop with
    | some s₁ =>
      obtain ⟨hcancelled, hs⟩ := p.pass_of_stop d stop kinks s s₁ hfirst
      rw [hfirst, Option.some_or] at h
      simp only [hcancelled, hs, if_true, Option.some_inj.mp h]
    | none =>
      rw [hfirst, Option.none_or] at h
      simp only [p.pass_of_not_stop d stop kinks s hfirst, pass_never]
      exact ih (kinks + 1) _ _ h

/-! ## Surveys that are stopped -/

theorem survey_stop (config : SurveyConfig) (stop : StopSignal α σ) (s : Session α σ)
    (hrun : p.preflight d = .ok ()) :
    p.survey d config stop s =
      match (p.looks d (Search.route d (lastPass d config + 1)) s).find? stop with
      | some s' => (.error .cancelled, s')
      | none => p.survey d config .never s := by
  rw [survey_def, survey_def, hrun]
  have hroute : Search.route d (lastPass d config + 1) =
      (List.range' 0 (lastPass d config + 1)).flatMap fun k => (Search.new d k).toList := by
    rw [Search.route, List.range_eq_range']
  rw [hroute]
  cases h : (p.looks d ((List.range' 0 (lastPass d config + 1)).flatMap fun k =>
    (Search.new d k).toList) s).find? stop with
  | some s' => exact p.passes_of_stop d stop _ 0 _ s s' h
  | none => exact p.passes_of_not_stop d stop _ 0 _ s h

/-! ## Labelers that stop a survey -/

/-- The pipeline with a labeler that counts its calls. -/
def counting (name : String) : Pipeline α (Nat × σ) :=
  ⟨p.synth, p.labeler.counting name, p.box, p.inverts⟩

variable (name : String)

theorem calls_labelGrid (b : GridBoundary) (s : Session α (Nat × σ)) :
    ((p.counting name).labelGrid d b s).2.labeler.1 = s.labeler.1 ∨
      ((p.counting name).labelGrid d b s).2.labeler.1 = s.labeler.1 + 1 := by
  rw [labeler_labelGrid]
  cases (p.counting name).traceOf d b with
  | error fault => exact .inl rfl
  | ok trace => exact .inr rfl

theorem calls_le_labelAll (l : List GridBoundary) (s : Session α (Nat × σ)) :
    s.labeler.1 ≤ ((p.counting name).labelAll d l s).2.labeler.1 := by
  induction l generalizing s with
  | nil => exact le_refl _
  | cons b l ih =>
    rw [labelAll_cons]
    have hfirst : s.labeler.1 ≤ ((p.counting name).labelGrid d b s).2.labeler.1 := by
      have hcalls := p.calls_labelGrid d name b s
      omega
    exact hfirst.trans (ih _)

theorem find?_looks_calls (n : Nat) (l : List GridBoundary) (s : Session α (Nat × σ))
    (hs : s.labeler.1 < n) :
    match ((p.counting name).looks d l s).find?
      (StopSignal.afterCalls n) with
    | some s' => s'.labeler.1 = n ∧ n ≤ ((p.counting name).labelAll d l s).2.labeler.1
    | none => ((p.counting name).labelAll d l s).2.labeler.1 < n := by
  induction l generalizing s with
  | nil =>
    rw [looks, List.find?_cons_of_neg (by simpa [StopSignal.afterCalls] using hs)]
    exact hs
  | cons b l ih =>
    rw [looks, List.find?_cons_of_neg (by simpa [StopSignal.afterCalls] using hs), labelAll_cons]
    by_cases hnext : ((p.counting name).labelGrid d b s).2.labeler.1 < n
    · exact ih _ hnext
    · -- One boundary is one call at most, so the calls do not jump over `n`.
      have hcalls : ((p.counting name).labelGrid d b s).2.labeler.1 = n := by
        have h := p.calls_labelGrid d name b s
        omega
      rw [find?_looks_of_stop _ d _ l _ (by simp [StopSignal.afterCalls, hcalls])]
      exact ⟨hcalls, hcalls ▸ p.calls_le_labelAll d name l _⟩

/-- A labeler that stops the survey in its `n`-th call is called `n` times, and there is no atlas.
If it is not called that often, then nothing changes. -/
theorem survey_counting (config : SurveyConfig) (hrun : p.preflight d = .ok ()) (n : Nat)
    (hn : 1 ≤ n) (s : Session α (Nat × σ)) (hs : s.labeler.1 = 0) :
    let whole := (p.counting name).survey d config .never s
    let stopped := (p.counting name).survey d config (.afterCalls n) s
    (n ≤ whole.2.labeler.1 → stopped.1 = .error .cancelled ∧ stopped.2.labeler.1 = n) ∧
      (whole.2.labeler.1 < n → stopped = whole) := by
  intro whole stopped
  have hrun' : (p.counting name).preflight d = .ok () := hrun
  have hwhole : whole.2 = ((p.counting name).labelAll d
      (Search.route d (lastPass d config + 1)) s).2 := by
    rw [show whole = _ from (p.counting name).survey_never d config s hrun']
    rfl
  have hstopped : stopped = _ := (p.counting name).survey_stop d config _ s hrun'
  have hcalls := p.find?_looks_calls d name n (Search.route d (lastPass d config + 1)) s (by omega)
  rw [hwhole, hstopped]
  cases hfind : ((p.counting name).looks d (Search.route d (lastPass d config + 1)) s).find?
      (StopSignal.afterCalls n) with
  | some s' =>
    rw [hfind] at hcalls
    exact ⟨fun _ => ⟨rfl, hcalls.1⟩, fun h => absurd hcalls.2 (by omega)⟩
  | none =>
    rw [hfind] at hcalls
    exact ⟨fun h => absurd hcalls (by omega), fun _ => rfl⟩

end Pipeline

end BoundaryAtlas
