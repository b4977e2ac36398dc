import BoundaryAtlas.Proofs.Atlas.Reports

/-!
# Every boundary is counted once

The tallies are filled from the outcomes and the labels by their boundaries. Both agree: a tally
counts each boundary of its pass once, and the labeled ones are the records with as many kinks.
-/

namespace BoundaryAtlas

variable {α σ : Type}

/-! ## The tally of a list of outcomes -/

namespace Tally

/-- The tally counts these outcomes, each once. -/
structure Counts (t : Tally) (outcomes : List (Outcome α)) : Prop where
  all : t.labeled + t.infeasible + t.timedOut + t.invalid = outcomes.length
  labeled : t.labeled = (outcomes.filterMap Outcome.record?).length
  positives : t.positives = (outcomes.filterMap Outcome.record?).countP Record.label

theorem counts_zero : zero.Counts ([] : List (Outcome α)) := ⟨rfl, rfl, rfl⟩

theorem Counts.note {t : Tally} {outcomes : List (Outcome α)} (h : t.Counts outcomes)
    (o : Outcome α) : (t.note o).Counts (outcomes ++ [o]) := by
  obtain ⟨hall, hlabeled, hpositives⟩ := h
  have hadd : ∀ s t : Tally, s + t = ⟨s.labeled + t.labeled, s.positives + t.positives,
    s.infeasible + t.infeasible, s.timedOut + t.timedOut, s.invalid + t.invalid⟩ := fun _ _ => rfl
  cases o with
  | labeled r =>
    refine ⟨?_, ?_, ?_⟩
    · simp only [Tally.note, ofOutcome, hadd, List.length_append, List.length_singleton]
      omega
    · simp [Tally.note, ofOutcome, hadd, hlabeled, Outcome.record?]
    · simp [Tally.note, ofOutcome, hadd, hpositives, Outcome.record?, List.countP_singleton]
  | failed b fault =>
    have hrecords : (outcomes ++ [Outcome.failed b fault]).filterMap Outcome.record? =
        outcomes.filterMap Outcome.record? := by simp [Outcome.record?]
    refine ⟨?_, ?_, ?_⟩
    · rw [List.length_append, List.length_singleton, ← hall]
      cases fault <;> simp only [Tally.note, ofOutcome, hadd] <;> omega
    · rw [hrecords, ← hlabeled]
      cases fault <;> rfl
    · rw [hrecords, ← hpositives]
      cases fault <;> rfl

theorem counts_foldl (outcomes : List (Outcome α)) :
    (outcomes.foldl Tally.note zero).Counts outcomes := by
  induction outcomes using List.reverseRecOn with
  | nil => exact counts_zero
  | append_singleton outcomes o ih =>
    rw [List.foldl_append]
    exact ih.note o

end Tally

/-! ## Lists of an atlas -/

namespace Atlas

theorem size_eq (m : Atlas α) : m.size = m.records.length := by
  rw [records_def, List.length_map, Std.ExtTreeMap.length_toList]
  rfl

theorem positives_eq (m : Atlas α) : m.positives = m.records.countP Record.label := by
  have hcount : ∀ (l : List (GridBoundary × Bool)) (n : Nat),
      l.foldl (fun n r => if r.2 then n + 1 else n) n = n + l.countP Prod.snd := by
    intro l
    induction l with
    | nil => simp
    | cons r l ih =>
      intro n
      rw [List.foldl_cons, ih, List.countP_cons]
      cases r.2 <;> simp
      omega
  rw [positives, Std.ExtTreeMap.foldl_eq_foldl_toList, hcount, records_def, List.countP_map]
  exact Nat.zero_add _

theorem records_nodup (m : Atlas α) : m.records.Nodup := by
  refine m.records_sorted.imp ?_
  rintro r _ h rfl
  exact GridBoundary.cmp_lt_irrefl _ h

theorem recordsWith_perm (m : Atlas α) (n : Nat) (h : ∀ r ∈ m.records, r.kinks < n) :
    ((List.range n).flatMap m.recordsWith).Perm m.records := by
  have hnodup : ((List.range n).flatMap m.recordsWith).Nodup := by
    refine List.nodup_flatMap.mpr ⟨fun k _ => m.records_nodup.filter _, ?_⟩
    refine List.nodup_range.imp ?_
    intro k k' hne r hr hr'
    exact hne (((m.mem_recordsWith k r).mp hr).2.1.symm.trans ((m.mem_recordsWith k' r).mp hr').2.1)
  refine (List.perm_ext_iff_of_nodup hnodup m.records_nodup).mpr fun r => ?_
  simp only [List.mem_flatMap, List.mem_range, recordsWith_def, List.mem_filter, decide_eq_true_eq]
  constructor
  · rintro ⟨k, -, hr, -⟩
    exact hr
  · intro hr
    exact ⟨r.kinks, h r hr, hr, rfl⟩

theorem read_total (m : Atlas α) (read : Tally → Nat) (hzero : read .zero = 0)
    (hadd : ∀ s t, read (s + t) = read s + read t) :
    read m.total = (m.tallies.toList.map fun t => read t.2).sum := by
  have hfold : ∀ (l : List (Nat × Tally)) (t : Tally),
      read (l.foldl (fun total t => total + t.2) t) = read t + (l.map fun t => read t.2).sum := by
    intro l
    induction l with
    | nil => simp
    | cons first l ih =>
      intro t
      rw [List.foldl_cons, ih, hadd, List.map_cons, List.sum_cons]
      omega
  rw [total, Std.ExtTreeMap.foldl_eq_foldl_toList, hfold, hzero, Nat.zero_add]

theorem tallies_perm (m : Atlas α) (n : Nat) (tallyOf : Nat → Tally)
    (h : ∀ k, m.tally? k = if k < n then some (tallyOf k) else none) :
    m.tallies.toList.Perm ((List.range n).map fun k => (k, tallyOf k)) := by
  have hnodup : m.tallies.toList.Nodup := by
    refine Std.ExtTreeMap.distinct_keys_toList.imp ?_
    rintro t _ hne rfl
    exact hne Std.ReflCmp.compare_self
  have hnodup' : ((List.range n).map fun k => (k, tallyOf k)).Nodup :=
    List.nodup_range.map fun k k' hk => congrArg Prod.fst hk
  refine (List.perm_ext_iff_of_nodup hnodup hnodup').mpr ?_
  rintro ⟨k, t⟩
  rw [Std.ExtTreeMap.mem_toList_iff_getElem?_eq_some]
  have hk : m.tallies[k]? = if k < n then some (tallyOf k) else none := h k
  simp only [hk, List.mem_map, List.mem_range, Prod.mk.injEq]
  split
  · rename_i hlt
    simp only [Option.some.injEq]
    constructor
    · rintro rfl
      exact ⟨k, hlt, rfl, rfl⟩
    · rintro ⟨_, -, rfl, rfl⟩
      rfl
  · rename_i hge
    simp only [reduceCtorEq, false_iff]
    rintro ⟨_, hlt, rfl, -⟩
    exact hge hlt

theorem read_total_range (m : Atlas α) (n : Nat) (tallyOf : Nat → Tally) (read : Tally → Nat)
    (hzero : read .zero = 0) (hadd : ∀ s t, read (s + t) = read s + read t)
    (htallies : ∀ k, m.tally? k = if k < n then some (tallyOf k) else none) :
    read m.total = ((List.range n).map fun k => read (tallyOf k)).sum := by
  rw [m.read_total read hzero hadd,
    ((m.tallies_perm n tallyOf htallies).map fun t => read t.2).sum_eq, List.map_map]
  rfl

/-- If the tallies of all passes read what their records count, then so does their total. -/
theorem read_total_eq (m : Atlas α) (n : Nat) (tallyOf : Nat → Tally) (read : Tally → Nat)
    (count : Record → Bool) (hzero : read .zero = 0)
    (hadd : ∀ s t, read (s + t) = read s + read t)
    (htallies : ∀ k, m.tally? k = if k < n then some (tallyOf k) else none)
    (hrecords : ∀ r ∈ m.records, r.kinks < n)
    (hread : ∀ k < n, read (tallyOf k) = (m.recordsWith k).countP count) :
    read m.total = m.records.countP count := by
  have hpasses : (List.range n).map (fun k => read (tallyOf k)) =
      (List.range n).map (List.countP count ∘ m.recordsWith) :=
    List.map_congr_left fun k hk => hread k (List.mem_range.mp hk)
  calc read m.total = ((List.range n).map fun k => read (tallyOf k)).sum :=
        m.read_total_range n tallyOf read hzero hadd htallies
    _ = ((List.range n).flatMap m.recordsWith).countP count := by
        rw [hpasses, List.countP_flatMap]
    _ = m.records.countP count := (m.recordsWith_perm n hrecords).countP_eq count

end Atlas

/-! ## Atlases of fixed outcomes -/

namespace Atlas

variable (d : Grid α) (config : SurveyConfig) (f : GridBoundary → Outcome α)

/-- The tally of a pass whose boundaries have fixed outcomes. -/
def passTally (k : Nat) : Tally := ((Search.new d k).toList.map f).foldl Tally.note .zero

theorem tally?_ofOutcomes (k : Nat) :
    (ofOutcomes d config f).tally? k =
      if k < Pipeline.lastPass d config + 1 then some (passTally d f k) else none := by
  rw [ofOutcomes, tally?_addPasses]
  simp only [Nat.zero_le, true_and, Nat.zero_add]
  split
  · rfl
  · exact Std.ExtTreeMap.getElem?_empty

variable (hb : ∀ b, (f b).boundary = b)

include hb

theorem kinks_lt_of_mem_records (r : Record) (h : r ∈ (ofOutcomes d config f).records) :
    r.kinks < Pipeline.lastPass d config + 1 := by
  obtain ⟨hlabel, hkinks⟩ := (mem_records _ r).mp h
  obtain ⟨-, k, hk, hmem⟩ := (get?_ofOutcomes d config f hb _ _).mp hlabel
  rw [hkinks, ((Search.mem_toList_new d k _).mp hmem).kinks_eq]
  omega

variable (hr : ∀ b r, (f b).record? = some r → r = ⟨b, b.kinks, r.label⟩)

include hr

theorem labeled_passTally (k : Nat) (hk : k ≤ Pipeline.lastPass d config) :
    (passTally d f k).labeled = ((ofOutcomes d config f).recordsWith k).length := by
  rw [recordsWith_ofOutcomes d config f hr hb k hk]
  exact (Tally.counts_foldl _).labeled

theorem positives_passTally (k : Nat) (hk : k ≤ Pipeline.lastPass d config) :
    (passTally d f k).positives =
      ((ofOutcomes d config f).recordsWith k).countP Record.label := by
  rw [recordsWith_ofOutcomes d config f hr hb k hk]
  exact (Tally.counts_foldl _).positives

theorem labeled_total_ofOutcomes :
    (ofOutcomes d config f).total.labeled = (ofOutcomes d config f).size := by
  rw [size_eq, ← List.countP_true]
  refine read_total_eq _ _ (passTally d f) Tally.labeled _ rfl (fun _ _ => rfl)
    (tally?_ofOutcomes d config f) (kinks_lt_of_mem_records d config f hb) fun k hk => ?_
  rw [List.countP_true]
  exact labeled_passTally d config f hb hr k (Nat.lt_succ_iff.mp hk)

theorem positives_total_ofOutcomes :
    (ofOutcomes d config f).total.positives = (ofOutcomes d config f).positives := by
  rw [positives_eq]
  exact read_total_eq _ _ (passTally d f) Tally.positives _ rfl (fun _ _ => rfl)
    (tally?_ofOutcomes d config f) (kinks_lt_of_mem_records d config f hb) fun k hk =>
      positives_passTally d config f hb hr k (Nat.lt_succ_iff.mp hk)

end Atlas

/-! ## Surveys -/

namespace Pipeline

variable [Scalar α]

/-- **Conservation.** In the atlas of a survey, the tally of each pass counts every boundary of the
pass once. Its labeled ones are the records with as many kinks, and its positives those of them that
are positive. No other number of kinks has a tally, and in total the tallies have as many labeled
ones and positives as the atlas. This holds in whatever order outcomes come in, and even if the
solver runs out of time on some boundaries and not on others. -/
theorem survey_conserves (p : Pipeline α σ) (d : Grid α) (config : SurveyConfig) (m : Atlas α)
    (h : (∃ stop s, (p.survey d config stop s).1 = .ok m) ∨ p.MayGiveTimed d config m) :
    (∀ k ≤ lastPass d config, ∃ t, m.tally? k = some t ∧
      t.labeled + t.infeasible + t.timedOut + t.invalid = (Search.new d k).toList.length ∧
      t.labeled = (m.recordsWith k).length ∧
      t.positives = (m.recordsWith k).countP Record.label) ∧
    (∀ k, lastPass d config < k → m.tally? k = none) ∧
    m.total.labeled = m.size ∧ m.total.positives = m.positives := by
  have hgive : p.MayGiveTimed d config m := by
    rcases h with ⟨stop, s, h⟩ | h
    · exact (p.mayAnswer_of_survey d config stop s m h).timed
    · exact h
  obtain ⟨reports, hreports, rfl⟩ := hgive
  rw [Atlas.addPasses_eq_ofOutcomes d config reports fun k hk => (hreports k hk).isReport]
  have hb := Atlas.boundary_reported reports
  have hr := Atlas.record?_reported reports
  refine ⟨fun k hk => ?_, fun k hk => ?_, ?_, ?_⟩
  · refine ⟨Atlas.passTally d (Atlas.reported reports) k, ?_, ?_, ?_, ?_⟩
    · rw [Atlas.tally?_ofOutcomes, if_pos (by omega)]
    · rw [Atlas.passTally, (Tally.counts_foldl _).all, List.length_map]
    · exact Atlas.labeled_passTally d config _ hb hr k hk
    · exact Atlas.positives_passTally d config _ hb hr k hk
  · rw [Atlas.tally?_ofOutcomes, if_neg (by omega)]
  · exact Atlas.labeled_total_ofOutcomes d config _ hb hr
  · exact Atlas.positives_total_ofOutcomes d config _ hb hr

/-- A diagonal cannot be followed, and there are no more than two kinks. -/
theorem survey_conserves_steep :
    ∃ m, (steep.survey cell ⟨5, none⟩ .never (.new () false)).1 = .ok m ∧
      (∃ t, m.tally? 0 = some t ∧ t.labeled + t.infeasible + t.timedOut + t.invalid = 4 ∧
        t.labeled = (m.recordsWith 0).length) ∧
      m.tally? 3 = none ∧ m.total.labeled = m.size := by
  cases hsurvey : (steep.survey cell ⟨5, none⟩ .never (.new () false)).1 with
  | error f =>
    have hok : (steep.survey cell ⟨5, none⟩ .never (.new () false)).1.isOk = true := by
      decide +kernel
    simp [hsurvey, Except.isOk, Except.toBool] at hok
  | ok m =>
    obtain ⟨htallies, hnone, htotal, -⟩ :=
      survey_conserves steep cell ⟨5, none⟩ m (.inl ⟨_, _, hsurvey⟩)
    obtain ⟨t, ht, hall, hlabeled, -⟩ := htallies 0 (by decide)
    have hcount : (Search.new cell 0).toList.length = 4 := by decide +kernel
    exact ⟨m, rfl, ⟨t, ht, hall.trans hcount, hlabeled⟩, hnone 3 (by decide), htotal⟩

end Pipeline

end BoundaryAtlas
