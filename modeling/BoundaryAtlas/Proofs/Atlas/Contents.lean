import Mathlib.Data.List.Sort
import BoundaryAtlas.Atlas.Basic

/-!
# The contents of an atlas

What an atlas knows about a boundary after labels were added, and what it lists.
-/

namespace BoundaryAtlas

theorem GridBoundary.cmp_lt_irrefl (a : GridBoundary) : GridBoundary.cmp a a ≠ .lt := by
  have h : GridBoundary.cmp a a = .eq := Std.ReflCmp.compare_self
  simp [h]

theorem GridBoundary.cmp_lt_asymm (a b : GridBoundary) (h : GridBoundary.cmp a b = .lt) :
    GridBoundary.cmp b a ≠ .lt := by
  have h' : GridBoundary.cmp b a = .gt := Std.OrientedCmp.gt_of_lt h
  simp [h']

/-- Records in the order of their boundaries, with no boundary twice. -/
def Record.Sorted (l : List Record) : Prop :=
  l.Pairwise fun r r' => GridBoundary.cmp r.boundary r'.boundary = .lt

theorem Record.Sorted.eq_of_mem_iff {l l' : List Record} (hl : Record.Sorted l)
    (hl' : Record.Sorted l') (h : ∀ r, r ∈ l ↔ r ∈ l') : l = l' := by
  have : Std.Irrefl fun r r' : Record => GridBoundary.cmp r.boundary r'.boundary = .lt :=
    ⟨fun r => GridBoundary.cmp_lt_irrefl r.boundary⟩
  have : Std.Antisymm fun r r' : Record => GridBoundary.cmp r.boundary r'.boundary = .lt :=
    ⟨fun r r' h h' => absurd h' (GridBoundary.cmp_lt_asymm _ _ h)⟩
  exact List.Pairwise.eq_of_mem_iff hl hl' h

namespace Outcome

variable {α : Type}

/-- The label of an outcome, if there is one. -/
def label? (outcome : Outcome α) : Option Bool := outcome.record?.map Record.label

end Outcome

namespace Atlas

variable {α : Type}

theorem ext {m m' : Atlas α} (hgrid : m.grid = m'.grid) (hmax : m.maxKinks = m'.maxKinks)
    (hlabels : ∀ b, m.get? b = m'.get? b) (htallies : m.tallies = m'.tallies) : m = m' := by
  obtain ⟨grid, maxKinks, labels, tallies⟩ := m
  obtain ⟨grid', maxKinks', labels', tallies'⟩ := m'
  obtain rfl : labels = labels' := Std.ExtTreeMap.ext_getElem? hlabels
  simp_all

/-! ## Adding labels -/

theorem get?_insert (m : Atlas α) (r : Record) (b : GridBoundary) :
    (m.insert r).2.get? b =
      if r.boundary = b then (m.get? b).or (some r.label) else m.get? b := by
  have heq : GridBoundary.cmp r.boundary b = .eq ↔ r.boundary = b :=
    Std.LawfulEqCmp.compare_eq_iff_eq
  simp only [insert, get?, Std.ExtTreeMap.containsThenInsertIfNew_snd,
    Std.ExtTreeMap.getElem?_insertIfNew, heq]
  by_cases h : r.boundary = b
  · subst h
    by_cases hmem : r.boundary ∈ m.labels
    · simp [hmem]
    · simp [hmem]
  · simp [h]

theorem get?_insertOutcome (m : Atlas α) (outcome : Outcome α) (b : GridBoundary) :
    (m.insertOutcome outcome).get? b =
      if outcome.boundary = b then (m.get? b).or outcome.label? else m.get? b := by
  cases outcome with
  | labeled r => exact m.get?_insert r b
  | failed b' fault => simp [insertOutcome, Outcome.label?, Outcome.record?]

@[simp] theorem grid_insertOutcome (m : Atlas α) (outcome : Outcome α) :
    (m.insertOutcome outcome).grid = m.grid := by cases outcome <;> rfl

@[simp] theorem maxKinks_insertOutcome (m : Atlas α) (outcome : Outcome α) :
    (m.insertOutcome outcome).maxKinks = m.maxKinks := by cases outcome <;> rfl

@[simp] theorem tallies_insertOutcome (m : Atlas α) (outcome : Outcome α) :
    (m.insertOutcome outcome).tallies = m.tallies := by cases outcome <;> rfl

theorem insertOutcome_comm (m : Atlas α) (o o' : Outcome α) (h : o.boundary ≠ o'.boundary) :
    (m.insertOutcome o).insertOutcome o' = (m.insertOutcome o').insertOutcome o := by
  refine ext (by simp) (by simp) (fun b => ?_) (by simp)
  simp only [get?_insertOutcome]
  split <;> split <;> simp_all

@[simp] theorem get?_setTally (m : Atlas α) (kinks : Nat) (t : Tally) (b : GridBoundary) :
    (m.setTally kinks t).get? b = m.get? b := rfl

@[simp] theorem get?_empty (d : Grid α) (maxKinks : Nat) (b : GridBoundary) :
    (empty d maxKinks).get? b = none := Std.ExtTreeMap.getElem?_empty

/-! ## Listing -/

theorem mem_records (m : Atlas α) (r : Record) :
    r ∈ m.records ↔ m.get? r.boundary = some r.label ∧ r.kinks = r.boundary.kinks := by
  obtain ⟨b, kinks, label⟩ := r
  simp only [records_def, List.mem_map, Prod.exists, Record.mk.injEq,
    Std.ExtTreeMap.mem_toList_iff_getElem?_eq_some, get?]
  constructor
  · rintro ⟨b, label, h, rfl, rfl, rfl⟩
    exact ⟨h, rfl⟩
  · rintro ⟨h, rfl⟩
    exact ⟨b, label, h, rfl, rfl, rfl⟩

theorem records_sorted (m : Atlas α) : Record.Sorted m.records := by
  rw [Record.Sorted, records_def, List.pairwise_map]
  exact Std.ExtTreeMap.ordered_keys_toList

theorem mem_recordsWith (m : Atlas α) (kinks : Nat) (r : Record) :
    r ∈ m.recordsWith kinks ↔
      m.get? r.boundary = some r.label ∧ r.kinks = kinks ∧ r.boundary.kinks = kinks := by
  rw [recordsWith_def, List.mem_filter, mem_records, decide_eq_true_eq]
  constructor
  · rintro ⟨⟨h, hk⟩, rfl⟩
    exact ⟨h, rfl, hk.symm⟩
  · rintro ⟨h, hk, hk'⟩
    exact ⟨⟨h, by rw [hk, hk']⟩, hk⟩

theorem recordsWith_sorted (m : Atlas α) (kinks : Nat) : Record.Sorted (m.recordsWith kinks) :=
  m.records_sorted.filter _

end Atlas

end BoundaryAtlas
