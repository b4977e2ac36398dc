import Mathlib.Algebra.Ring.Nat
import BoundaryAtlas.Proofs.Grid.Scan

/-!
# The ways to go on

A path that a search has chosen can go on in some ways. Filling it finds the first of them, and the
ways to go on from no point at all are the canonical boundaries.
-/

namespace BoundaryAtlas

namespace Search

theorem columns_nil (s : Search) (rest : Nat) : s.columns [] rest = ⟨0, 0⟩ := rfl

theorem columns_cons (s : Search) (q : GridPoint) (before : List GridPoint) (rest : Nat) :
    s.columns (q :: before) rest =
      if rest = 0 then ⟨s.numX, s.numX⟩
      else ⟨if before.head?.any (·.col = q.col) then q.col + 1 else q.col, s.numX⟩ := by
  simp only [columns, Machine.columns]
  split
  · rfl
  · split <;> rfl

theorem nodeAfter_eq (s : Search) (p : GridPoint) :
    s.nodeAfter p = if p.row < s.numY then ⟨p.col, p.row + 1⟩ else ⟨p.col + 1, 0⟩ := by
  unfold nodeAfter Machine.nodeAfter
  split <;> rfl

theorem answer?_tryNode (fillRest : List GridPoint → Id (Option (List GridPoint)))
    (path : List GridPoint) (p : GridPoint) :
    (Machine.ideal.tryNode fillRest path p).run.answer? =
      if staysKink path p then (fillRest (p :: path)).run else none := by
  rw [Machine.tryNode, Id.run_bind, staysKink]
  cases (Machine.ideal.staysKink path p).run with
  | false => rfl
  | true =>
    rw [if_pos rfl, if_pos rfl, Id.run_bind]
    cases (fillRest (p :: path)).run <;> rfl

theorem fillFrom_eq_findSome? (s : Search) (rest : Nat) (path : List GridPoint)
    (start : GridPoint) :
    s.fillFrom rest path start =
      (GridPoint.nodesFrom s.numY (s.columns path rest).hi
        (if (s.columns path rest).lo ≤ start.col then start
          else ⟨(s.columns path rest).lo, 0⟩)).findSome?
        fun p => if staysKink path p then s.fill rest (p :: path) else none := by
  rw [fillFrom, Machine.fillFrom, Id.run_bind, Machine.scan_ideal]
  simp only [answer?_tryNode]
  rfl

/-! ## Choices for one point -/

/-- The nodes at `start` or after it that may follow `path`, when `rest` more points come after. -/
def choices (s : Search) (rest : Nat) (path : List GridPoint) (start : GridPoint) :
    List GridPoint :=
  let cols := s.columns path rest
  (GridPoint.nodesFrom s.numY cols.hi (if cols.lo ≤ start.col then start else ⟨cols.lo, 0⟩)).filter
    (staysKink path)

theorem mem_choices (s : Search) (rest : Nat) (path : List GridPoint) (start p : GridPoint) :
    p ∈ s.choices rest path start ↔
      staysKink path p = true ∧ p.row ≤ s.numY ∧ (s.columns path rest).lo ≤ p.col ∧
        p.col ≤ (s.columns path rest).hi ∧
        (start.col < p.col ∨ start.col = p.col ∧ start.row ≤ p.row) := by
  simp only [choices, List.mem_filter, GridPoint.mem_nodesFrom]
  split <;> constructor <;> rintro h <;> simp_all <;> omega

theorem choices_sorted (s : Search) (rest : Nat) (path : List GridPoint) (start : GridPoint) :
    (s.choices rest path start).Pairwise fun p q => GridPoint.cmp p q = .lt :=
  (GridPoint.nodesFrom_sorted _ _ _).filter _

theorem choices_nodeAfter (s : Search) (rest : Nat) (path : List GridPoint) (start p : GridPoint)
    (before after : List GridPoint) (h : s.choices rest path start = before ++ p :: after) :
    s.choices rest path (s.nodeAfter p) = after := by
  have hsorted := s.choices_sorted rest path start
  have hmem := s.mem_choices rest path start
  rw [h] at hsorted hmem
  rw [List.pairwise_append, List.pairwise_cons] at hsorted
  obtain ⟨-, ⟨hp_lt, hafter⟩, hbefore⟩ := hsorted
  apply List.Pairwise.eq_of_mem_iff (s.choices_sorted rest path _) hafter
  intro q
  have hp := (hmem p).mp (by simp)
  rw [mem_choices]
  constructor
  · rintro ⟨hstays, hrow, hlo, hhi, hpq⟩
    have hlt : GridPoint.cmp p q = .lt := by
      rw [GridPoint.cmp_lt_iff]
      rw [nodeAfter_eq] at hpq
      split at hpq <;> simp only at hpq <;> omega
    have hq : q ∈ before ++ p :: after := by
      rw [GridPoint.cmp_lt_iff] at hlt
      exact (hmem q).mpr ⟨hstays, hrow, hlo, hhi, by omega⟩
    rw [List.mem_append, List.mem_cons] at hq
    rcases hq with hq | rfl | hq
    · have := hbefore q hq p List.mem_cons_self
      rw [GridPoint.cmp_lt_iff] at this hlt
      omega
    · exact absurd hlt (GridPoint.cmp_lt_irrefl q)
    · exact hq
  · intro hq
    have hlt := hp_lt q hq
    obtain ⟨hstays, hrow, hlo, hhi, -⟩ := (hmem q).mp (by simp [hq])
    rw [GridPoint.cmp_lt_iff] at hlt
    refine ⟨hstays, hrow, hlo, hhi, ?_⟩
    rw [nodeAfter_eq]
    split <;> simp only <;> omega

/-! ## All ways to go on -/

/-- The ways to add `rest` points to `path`, in order. -/
def continuations (s : Search) : (rest : Nat) → (path : List GridPoint) → List (List GridPoint)
  | 0, _ => [[]]
  | rest + 1, path => (s.choices rest path ⟨0, 0⟩).flatMap fun p =>
      (s.continuations rest (p :: path)).map (p :: ·)

/-- The ways to add a point at `start` or after it, and then `rest` points. -/
def continuationsFrom (s : Search) (rest : Nat) (path : List GridPoint) (start : GridPoint) :
    List (List GridPoint) :=
  (s.choices rest path start).flatMap fun p => (s.continuations rest (p :: path)).map (p :: ·)

theorem fill_succ (s : Search) (rest : Nat) (path : List GridPoint) :
    s.fill (rest + 1) path = s.fillFrom rest path ⟨0, 0⟩ := by
  have hstart : (if (s.columns path rest).lo ≤ 0 then (⟨0, 0⟩ : GridPoint)
      else ⟨(s.columns path rest).lo, 0⟩) = ⟨(s.columns path rest).lo, 0⟩ := by
    split
    · rename_i h
      rw [Nat.le_zero.mp h]
    · rfl
  rw [fill, Machine.fill, Id.run_bind, Machine.scan_ideal, fillFrom_eq_findSome?, hstart]
  simp only [answer?_tryNode]
  rfl

theorem fillFrom_eq_of_fill (s : Search) (rest : Nat)
    (hfill : ∀ path, s.fill rest path = (s.continuations rest path).head?.map (·.reverse ++ path))
    (path : List GridPoint) (start : GridPoint) :
    s.fillFrom rest path start =
      (s.continuationsFrom rest path start).head?.map (·.reverse ++ path) := by
  rw [fillFrom_eq_findSome?, continuationsFrom, choices, List.head?_flatMap, GridPoint.findSome?_filter, List.map_findSome?]
  congr 1
  funext p
  rw [Function.comp_apply]
  split
  · rw [hfill, List.head?_map]
    cases (s.continuations rest (p :: path)).head? <;> simp
  · rfl

theorem fill_eq (s : Search) (rest : Nat) (path : List GridPoint) :
    s.fill rest path = (s.continuations rest path).head?.map (·.reverse ++ path) := by
  induction rest generalizing path with
  | zero => rfl
  | succ rest ih =>
    rw [fill_succ, fillFrom_eq_of_fill s rest ih]
    rfl

theorem fillFrom_eq (s : Search) (rest : Nat) (path : List GridPoint) (start : GridPoint) :
    s.fillFrom rest path start =
      (s.continuationsFrom rest path start).head?.map (·.reverse ++ path) :=
  fillFrom_eq_of_fill s rest (s.fill_eq rest) path start

theorem continuations_sorted (s : Search) (rest : Nat) (path : List GridPoint) :
    (s.continuations rest path).Pairwise fun a b => List.compareLex GridPoint.cmp a b = .lt := by
  induction rest generalizing path with
  | zero => exact List.pairwise_singleton _ _
  | succ rest ih =>
    rw [continuations, List.pairwise_flatMap]
    constructor
    · intro p _
      rw [List.pairwise_map]
      apply (ih (p :: path)).imp
      intro a b hab
      have hp : GridPoint.cmp p p = .eq := Std.ReflCmp.compare_self
      rw [List.compareLex_cons_cons, hp, hab]
      rfl
    · apply (s.choices_sorted rest path _).imp
      intro p q hpq a ha b hb
      rw [List.mem_map] at ha hb
      obtain ⟨a, -, rfl⟩ := ha
      obtain ⟨b, -, rfl⟩ := hb
      rw [List.compareLex_cons_cons, hpq]
      rfl

theorem columns_hi_le (s : Search) (path : List GridPoint) (rest : Nat) :
    (s.columns path rest).hi ≤ s.numX := by
  cases path with
  | nil => exact Nat.zero_le _
  | cons q before =>
    rw [columns_cons]
    split <;> exact Nat.le_refl _

theorem length_choices_le (s : Search) (rest : Nat) (path : List GridPoint) (start : GridPoint) :
    (s.choices rest path start).length ≤ (s.numX + 1) * (s.numY + 1) := by
  apply (List.length_filter_le _ _).trans
  apply (GridPoint.length_nodesFrom_le _ _ _).trans
  exact Nat.mul_le_mul_right _ (Nat.succ_le_succ (s.columns_hi_le path rest))

theorem length_continuations_le (s : Search) (rest : Nat) (path : List GridPoint) :
    (s.continuations rest path).length ≤ ((s.numX + 1) * (s.numY + 1)) ^ rest := by
  induction rest generalizing path with
  | zero => exact Nat.le_refl 1
  | succ rest ih =>
    have hsum : ∀ l : List GridPoint,
        (l.flatMap fun p => (s.continuations rest (p :: path)).map (p :: ·)).length ≤
          l.length * ((s.numX + 1) * (s.numY + 1)) ^ rest := by
      intro l
      induction l with
      | nil => simp
      | cons p l ihl =>
        rw [List.flatMap_cons, List.length_append, List.length_map, List.length_cons, Nat.succ_mul]
        have := ih (p :: path)
        omega
    rw [continuations, Nat.pow_succ']
    exact (hsum _).trans (Nat.mul_le_mul_right _ (s.length_choices_le rest path _))

/-! ## The ways to go on are the canonical ones -/

theorem beginning_of_append (s : Search) (l path : List GridPoint) (h : s.Beginning (l ++ path)) :
    s.Beginning path := by
  induction l with
  | nil => exact h
  | cons p l ih => exact ih h.1

/-- The columns leave out no point that may follow, and the last point is in the last column. -/
theorem mem_choices_iff_leads (s : Search) (rest : Nat) (path : List GridPoint) (p : GridPoint)
    (hpath : s.Beginning path) (hrest : path = [] → rest ≠ 0) :
    p ∈ s.choices rest path ⟨0, 0⟩ ↔ s.Leads path p ∧ (rest = 0 → p.col = s.numX) := by
  rw [mem_choices]
  cases path with
  | nil =>
    have hrest := hrest rfl
    simp only [columns_nil]
    constructor
    · rintro ⟨hstays, hrow, -, hcol, -⟩
      exact ⟨⟨by omega, hrow, hstays, fun _ => by omega, by simp⟩, fun h => absurd h hrest⟩
    · rintro ⟨h, -⟩
      have hcol := h.first rfl
      exact ⟨h.stays, h.row_le, by omega, by omega, by omega⟩
  | cons q before =>
    have hq := hpath.2.col_le
    have hlo : s.Leads (q :: before) p →
        (if before.head?.any (·.col = q.col) then q.col + 1 else q.col) ≤ p.col := by
      intro h
      have hle : q.col ≤ p.col := h.ordered q rfl
      split
      · rename_i hfull
        cases before with
        | nil => simp at hfull
        | cons o before =>
          have hoq : o.col = q.col := by simpa using hfull
          have := not_third_in_column before p o q h.stays hoq
          omega
      · exact hle
    simp only [columns_cons]
    by_cases h0 : rest = 0
    · simp only [h0, if_true, forall_const]
      constructor
      · rintro ⟨hstays, hrow, hle, hge, -⟩
        refine ⟨⟨hge, hrow, hstays, by simp, ?_⟩, by omega⟩
        simp only [List.head?_cons, Option.mem_def, Option.some.injEq, forall_eq']
        omega
      · rintro ⟨h, hcol⟩
        exact ⟨h.stays, h.row_le, by omega, by omega, by omega⟩
    · simp only [h0, if_false, false_imp_iff, and_true]
      constructor
      · rintro ⟨hstays, hrow, hle, hge, -⟩
        refine ⟨hge, hrow, hstays, by simp, ?_⟩
        simp only [List.head?_cons, Option.mem_def, Option.some.injEq, forall_eq']
        split at hle <;> omega
      · intro h
        exact ⟨h.stays, h.row_le, hlo h, h.col_le, by omega⟩

theorem mem_continuations (s : Search) (rest : Nat) (path l : List GridPoint)
    (hpath : s.Beginning path) (hrest : path = [] → 2 ≤ rest) :
    l ∈ s.continuations rest path ↔
      l.length = rest ∧ s.Beginning (l.reverse ++ path) ∧ ∀ p ∈ l.getLast?, p.col = s.numX := by
  induction rest generalizing path l with
  | zero =>
    simp only [continuations, List.mem_singleton, List.length_eq_zero_iff]
    constructor
    · rintro rfl
      exact ⟨rfl, hpath, by simp⟩
    · exact fun h => h.1
  | succ rest ih =>
    have hrest' : path = [] → rest ≠ 0 := fun h => by have := hrest h; omega
    simp only [continuations, List.mem_flatMap, List.mem_map,
      s.mem_choices_iff_leads rest path _ hpath hrest']
    constructor
    · rintro ⟨p, ⟨hp, hlast⟩, l, hl, rfl⟩
      obtain ⟨hlen, hbeg, hends⟩ := (ih (p :: path) l ⟨hpath, hp⟩ (by simp)).mp hl
      refine ⟨by simp [hlen], by simpa using hbeg, ?_⟩
      cases l with
      | nil => simpa using hlast hlen.symm
      | cons q l => simpa only [List.getLast?_cons_cons] using hends
    · rintro ⟨hlen, hbeg, hends⟩
      cases l with
      | nil => simp at hlen
      | cons p l =>
        have hbeg' : s.Beginning (l.reverse ++ p :: path) := by simpa using hbeg
        have hp := s.beginning_of_append _ _ hbeg'
        refine ⟨p, ⟨hp.2, ?_⟩, l, ?_, rfl⟩
        · rintro rfl
          obtain rfl : l = [] := by simpa using hlen
          exact hends p rfl
        · refine (ih (p :: path) l hp (by simp)).mpr ⟨by simpa using hlen, hbeg', ?_⟩
          intro q hq
          cases l with
          | nil => simp at hq
          | cons r l => exact hends q (by simpa only [List.getLast?_cons_cons] using hq)

end Search

end BoundaryAtlas
