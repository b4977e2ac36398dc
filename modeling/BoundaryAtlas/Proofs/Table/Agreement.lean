import BoundaryAtlas.Proofs.Atlas.Finished
import BoundaryAtlas.Proofs.Table.Lawful

/-!
# Tables and tallies agree

The totals that are read from a stored table count its records. For the atlas of a survey these
are the counts of its tallies, although the table never saw them.
-/

namespace BoundaryAtlas

/-! ## The tallies of a survey -/

namespace Atlas

variable {α : Type}

/-- What is counted for a number of kinks, which is nothing if it has no tally. -/
def tallyOrZero (m : Atlas α) (kinks : Nat) : Tally := (m.tally? kinks).getD .zero

/-- Each tally counts the records with as many kinks, and there are no others. -/
def TalliesRecords (m : Atlas α) : Prop := ∀ k,
  (m.tallyOrZero k).labeled = m.records.countP (·.kinks = k) ∧
  (m.tallyOrZero k).positives = m.records.countP fun r => r.kinks = k && r.label

theorem talliesRecords_ofOutcomes (d : Grid α) (config : SurveyConfig) (f : GridBoundary → Outcome α)
    (hb : ∀ b, (f b).boundary = b)
    (hr : ∀ b r, (f b).record? = some r → r = ⟨b, b.kinks, r.label⟩) :
    (ofOutcomes d config f).TalliesRecords := by
  intro k
  have hwith : (ofOutcomes d config f).records.countP (·.kinks = k) =
      ((ofOutcomes d config f).recordsWith k).length := List.countP_eq_length_filter
  have hpositive : ((ofOutcomes d config f).records.countP fun r => r.kinks = k && r.label) =
      ((ofOutcomes d config f).recordsWith k).countP Record.label := by
    rw [recordsWith_def, List.countP_filter]
    exact List.countP_congr fun r _ => by simp [and_comm]
  rw [hwith, hpositive, tallyOrZero, tally?_ofOutcomes]
  by_cases hk : k < Pipeline.lastPass d config + 1
  · rw [if_pos hk, Option.getD_some]
    exact ⟨labeled_passTally d config f hb hr k (Nat.lt_succ_iff.mp hk),
      positives_passTally d config f hb hr k (Nat.lt_succ_iff.mp hk)⟩
  · have hnone : (ofOutcomes d config f).recordsWith k = [] := by
      refine List.filter_eq_nil_iff.mpr fun r hr' => ?_
      have := kinks_lt_of_mem_records d config f hb r hr'
      simp only [decide_eq_true_eq]
      omega
    rw [if_neg hk, hnone]
    exact ⟨rfl, rfl⟩

end Atlas

namespace Pipeline

open Machine Table

variable {α σ : Type} [Scalar α]

theorem IsFinished.talliesRecords {p : Pipeline α σ} {d : Grid α} {config : SurveyConfig}
    {m : Atlas α} (h : p.IsFinished d config m) : m.TalliesRecords := by
  obtain ⟨reports, rfl⟩ := h.eq_ofOutcomes
  exact Atlas.talliesRecords_ofOutcomes d config _ (Atlas.boundary_reported reports)
    (Atlas.record?_reported reports)

omit [Scalar α] in
theorem mem_iff_of_talliesRecords {m : Atlas α} (h : m.TalliesRecords) (k : Nat) :
    (∃ r ∈ m.records, r.kinks = k) ↔ ∃ t, m.tally? k = some t ∧ 0 < t.labeled := by
  have hlabeled : 0 < (m.tallyOrZero k).labeled ↔ ∃ t, m.tally? k = some t ∧ 0 < t.labeled := by
    rw [Atlas.tallyOrZero]
    cases m.tally? k with
    | none => simp [Tally.zero]
    | some t => simp
  rw [← hlabeled, (h k).1, List.countP_pos_iff]
  simp

end Pipeline

end BoundaryAtlas
