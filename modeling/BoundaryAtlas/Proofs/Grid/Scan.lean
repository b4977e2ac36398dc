import BoundaryAtlas.Proofs.Grid.Canonical

/-!
# Going through nodes

A scan looks at the nodes of the grid column by column, and answers with the first success.
-/

namespace BoundaryAtlas

variable {β : Type}

namespace GridPoint

/-- The nodes of a column, `count` rows from `row` upward. -/
def column (col count row : Nat) : List GridPoint := (List.range' row count).map (GridPoint.mk col)

/-- The nodes at `start` or after it, up to column `hi`. -/
def nodesFrom (numY hi : Nat) (start : GridPoint) : List GridPoint :=
  if start.col ≤ hi then
    column start.col (numY + 1 - start.row) start.row ++
      (List.range' (start.col + 1) (hi - start.col)).flatMap fun col => column col (numY + 1) 0
  else []

theorem mem_column (col count row : Nat) (p : GridPoint) :
    p ∈ column col count row ↔ p.col = col ∧ row ≤ p.row ∧ p.row < row + count := by
  obtain ⟨i, j⟩ := p
  simp only [column, List.mem_map, List.mem_range'_1, GridPoint.mk.injEq]
  constructor
  · rintro ⟨k, hk, rfl, rfl⟩
    exact ⟨rfl, hk⟩
  · rintro ⟨rfl, hj⟩
    exact ⟨j, hj, rfl, rfl⟩

theorem mem_nodesFrom (numY hi : Nat) (start p : GridPoint) :
    p ∈ nodesFrom numY hi start ↔
      p.row ≤ numY ∧ p.col ≤ hi ∧ (start.col < p.col ∨ start.col = p.col ∧ start.row ≤ p.row) := by
  unfold nodesFrom
  split
  · simp only [List.mem_append, List.mem_flatMap, List.mem_range'_1, mem_column]
    constructor
    · rintro (h | ⟨col, h, h'⟩) <;> omega
    · rintro ⟨hrow, hcol, h | h⟩
      · exact Or.inr ⟨p.col, by omega, rfl, by omega, by omega⟩
      · exact Or.inl (by omega)
  · simp only [List.not_mem_nil, false_iff]
    omega

theorem column_sorted (col count row : Nat) :
    (column col count row).Pairwise fun p q => cmp p q = .lt := by
  rw [column, List.pairwise_map]
  apply (List.pairwise_lt_range' 1).imp
  intro a b hab
  exact (cmp_lt_iff _ _).mpr (Or.inr ⟨rfl, hab⟩)

theorem nodesFrom_sorted (numY hi : Nat) (start : GridPoint) :
    (nodesFrom numY hi start).Pairwise fun p q => cmp p q = .lt := by
  unfold nodesFrom
  split
  · rw [List.pairwise_append]
    refine ⟨column_sorted _ _ _, ?_, ?_⟩
    · rw [List.pairwise_flatMap]
      refine ⟨fun col _ => column_sorted _ _ _, (List.pairwise_lt_range' 1).imp ?_⟩
      intro a b hab p hp q hq
      rw [mem_column] at hp hq
      rw [cmp_lt_iff]
      omega
    · intro p hp q hq
      rw [List.mem_flatMap] at hq
      obtain ⟨col, hcol, hq⟩ := hq
      rw [List.mem_range'_1] at hcol
      rw [mem_column] at hp hq
      rw [cmp_lt_iff]
      omega
  · exact List.Pairwise.nil

theorem length_nodesFrom_le (numY hi : Nat) (start : GridPoint) :
    (nodesFrom numY hi start).length ≤ (hi + 1) * (numY + 1) := by
  unfold nodesFrom
  split
  · have hcolumn : ∀ col count row, (column col count row).length = count := by simp [column]
    simp only [List.length_append, List.length_flatMap, hcolumn, List.map_const',
      List.length_range', List.sum_replicate_nat]
    calc numY + 1 - start.row + (hi - start.col) * (numY + 1)
        ≤ (hi - start.col + 1) * (numY + 1) := by rw [Nat.succ_mul]; omega
      _ ≤ (hi + 1) * (numY + 1) := Nat.mul_le_mul_right _ (by omega)
  · exact Nat.zero_le _

theorem findSome?_filter (f : GridPoint → Option β) (keep : GridPoint → Bool) (l : List GridPoint) :
    (l.filter keep).findSome? f = l.findSome? fun p => if keep p = true then f p else none := by
  induction l with
  | nil => rfl
  | cons p l ih =>
    rw [List.findSome?_cons, List.filter_cons, ← ih]
    cases keep p <;> simp [List.findSome?_cons]

end GridPoint

/-- The answer that a trial has found. -/
def Trial.answer? : Trial β → Option β
  | .found answer => some answer
  | _ => none

namespace Machine

theorem scanRows_ideal (f : GridPoint → Id (Trial β)) (col count row : Nat) :
    (ideal.scanRows f col count row).run =
      (GridPoint.column col count row).findSome? fun p => (f p).run.answer? := by
  induction count generalizing row with
  | zero => rfl
  | succ count ih =>
    rw [GridPoint.column, List.range'_succ, List.map_cons, List.findSome?_cons,
      ← GridPoint.column, ← ih, scanRows, Id.run_bind]
    cases (f ⟨col, row⟩).run <;> rfl

theorem scanColumns_ideal (f : GridPoint → Id (Trial β)) (numY count col : Nat) :
    (ideal.scanColumns f numY count col).run =
      ((List.range' col count).flatMap fun col => GridPoint.column col (numY + 1) 0).findSome?
        fun p => (f p).run.answer? := by
  induction count generalizing col with
  | zero => rfl
  | succ count ih =>
    rw [List.range'_succ, List.flatMap_cons, List.findSome?_append, ← ih, ← scanRows_ideal,
      scanColumns, Id.run_bind]
    cases (ideal.scanRows f col (numY + 1) 0).run <;> rfl

theorem scan_ideal (f : GridPoint → Id (Trial β)) (numY hi : Nat) (start : GridPoint) :
    (ideal.scan f numY hi start).run =
      (GridPoint.nodesFrom numY hi start).findSome? fun p => (f p).run.answer? := by
  unfold scan GridPoint.nodesFrom
  split
  · rw [List.findSome?_append, ← scanRows_ideal, ← scanColumns_ideal, Id.run_bind]
    cases (ideal.scanRows f start.col (numY + 1 - start.row) start.row).run <;> rfl
  · rfl

end Machine

end BoundaryAtlas
