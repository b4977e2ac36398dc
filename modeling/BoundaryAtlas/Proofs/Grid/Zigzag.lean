import Mathlib.Data.List.Nodup
import Mathlib.Data.List.Perm.Subperm
import Mathlib.Data.Nat.Bitwise
import Mathlib.Tactic.Ring
import BoundaryAtlas.Proofs.Grid.Enumeration

/-!
# Zigzags

A zigzag goes up and down between the two lowest rows, with two points in each column. Any number of
kinks within the limit is reached in this way. All columns but the last few may as well be gone
through downward, so that the number of boundaries doubles with every two kinks.
-/

namespace BoundaryAtlas

namespace GridPoint

variable {p q r : GridPoint}

theorem cross_ne_zero_of_alternating (hcol : p.col ≠ r.col) (hp : p.row = r.row)
    (hq : q.row ≠ p.row) : cross p q r ≠ 0 := by
  have hcross : cross p q r = ((q.row : Int) - p.row) * ((p.col : Int) - r.col) := by
    rw [cross, ← hp]
    ring
  rw [hcross]
  exact mul_ne_zero (by omega) (by omega)

theorem cross_ne_zero_of_leaves_column (hcol : p.col = q.col) (hrow : p.row ≠ q.row)
    (hr : q.col ≠ r.col) : cross p q r ≠ 0 := by
  have hcross : cross p q r = ((p.row : Int) - q.row) * ((r.col : Int) - q.col) := by
    rw [cross, hcol]
    ring
  rw [hcross]
  exact mul_ne_zero (by omega) (by omega)

theorem cross_ne_zero_of_enters_column (hp : p.col ≠ q.col) (hcol : q.col = r.col)
    (hrow : q.row ≠ r.row) : cross p q r ≠ 0 := by
  have hcross : cross p q r = ((q.col : Int) - p.col) * ((r.row : Int) - q.row) := by
    rw [cross, hcol]
    ring
  rw [hcross]
  exact mul_ne_zero (by omega) (by omega)

end GridPoint

namespace GridBoundary

variable {α : Type}

/-- The nodes of a zigzag with `kinks` kinks: two in each column, and the last one in the last
column. A column is gone through upward, unless it is turned. -/
def zigzagNode (numX kinks : Nat) (turned : Nat → Bool) (i : Nat) : GridPoint :=
  ⟨if i = kinks + 1 then numX else i / 2, (i + (turned (i / 2)).toNat) % 2⟩

def zigzag (numX kinks : Nat) (turned : Nat → Bool) : GridBoundary :=
  ⟨(List.range (kinks + 2)).map (zigzagNode numX kinks turned)⟩

variable {numX kinks : Nat} {turned : Nat → Bool}

theorem getElem?_zigzag (i : Nat) (p : GridPoint) :
    (zigzag numX kinks turned).points[i]? = some p ↔
      i < kinks + 2 ∧ zigzagNode numX kinks turned i = p := by
  simp [zigzag, List.getElem?_eq_some_iff]

/-- The last two columns are not turned, so the last node continues the zigzag wherever it is. -/
theorem cross_zigzagNode (h : kinks ≤ 2 * numX) (hturned : ∀ j, turned j = true → 2 * j + 4 ≤ kinks)
    {i : Nat} (hi : i + 2 < kinks + 2) :
    GridPoint.cross (zigzagNode numX kinks turned i) (zigzagNode numX kinks turned (i + 1))
      (zigzagNode numX kinks turned (i + 2)) ≠ 0 := by
  rcases Nat.even_or_odd' i with ⟨j, rfl | rfl⟩
  · have hcolumn : (2 * j + 1) / 2 = j ∧ 2 * j / 2 = j := by omega
    apply GridPoint.cross_ne_zero_of_leaves_column <;> simp only [zigzagNode, hcolumn]
    · rw [if_neg (by omega), if_neg (by omega)]
    · omega
    · rw [if_neg (by omega)]
      split <;> omega
  · have hcolumn : (2 * j + 1) / 2 = j ∧ (2 * j + 1 + 1) / 2 = j + 1 ∧
      (2 * j + 1 + 2) / 2 = j + 1 := by omega
    by_cases hlast : 2 * j + 1 + 2 = kinks + 1
    · have hstraight : turned j = false ∧ turned (j + 1) = false := by
        constructor <;> refine Bool.eq_false_iff.mpr fun ht => ?_ <;> have := hturned _ ht <;> omega
      apply GridPoint.cross_ne_zero_of_alternating <;>
        simp only [zigzagNode, hcolumn, hstraight, Bool.toNat_false]
      · rw [if_neg (by omega), if_pos hlast]
        omega
      · omega
      · omega
    · apply GridPoint.cross_ne_zero_of_enters_column <;> simp only [zigzagNode, hcolumn]
      · rw [if_neg (by omega), if_neg (by omega)]
        omega
      · rw [if_neg (by omega), if_neg hlast]
      · omega

theorem isCanonical_zigzag (d : Grid α) (hy : 1 ≤ d.numY) (h : kinks ≤ d.kinkLimit)
    (hturned : ∀ j, turned j = true → 2 * j + 4 ≤ kinks) :
    (zigzag d.numX kinks turned).IsCanonical d kinks := by
  rw [Grid.kinkLimit] at h
  refine ⟨by simp [zigzag], ?_, ?_, ?_, ?_, ?_⟩
  · intro p hp
    rw [List.head?_eq_getElem?, Option.mem_def, getElem?_zigzag] at hp
    obtain ⟨-, rfl⟩ := hp
    simp [zigzagNode]
  · intro p hp
    rw [List.getLast?_eq_getElem?, Option.mem_def, getElem?_zigzag] at hp
    obtain ⟨-, rfl⟩ := hp
    simp [zigzagNode, zigzag]
  · rw [List.isChain_iff_getElem]
    intro i hi
    simp only [zigzag, List.length_map, List.length_range, List.getElem_map, List.getElem_range,
      zigzagNode] at hi ⊢
    split <;> split <;> omega
  · intro p hp
    obtain ⟨i, hi⟩ := List.mem_iff_getElem?.mp hp
    obtain ⟨hi, rfl⟩ := (getElem?_zigzag i p).mp hi
    simp only [zigzagNode]
    split <;> omega
  · intro p q r hpqr
    obtain ⟨i, -, hi⟩ := List.infix_iff_getElem?.mp hpqr
    have h0 := hi 0 (by simp)
    have h1 := hi 1 (by simp)
    have h2 := hi 2 (by simp)
    rw [getElem?_zigzag] at h0 h1 h2
    obtain ⟨-, rfl⟩ := h0
    obtain ⟨-, rfl⟩ := h1
    obtain ⟨hlt, rfl⟩ := h2
    simpa [Nat.add_comm] using cross_zigzagNode h hturned (by omega : i + 2 < kinks + 2)

theorem isCanonical_plain_zigzag (d : Grid α) (hy : 1 ≤ d.numY) (h : kinks ≤ d.kinkLimit) :
    (zigzag d.numX kinks fun _ => false).IsCanonical d kinks :=
  isCanonical_zigzag d hy h fun _ hj => Bool.noConfusion hj

/-! ## Counting -/

theorem turned_eq_of_zigzag_eq {turned' : Nat → Bool}
    (h : zigzag numX kinks turned = zigzag numX kinks turned') {j : Nat} (hj : 2 * j < kinks + 1) :
    turned j = turned' j := by
  have hnode : (zigzag numX kinks turned).points[2 * j]? =
      some (zigzagNode numX kinks turned' (2 * j)) := by
    rw [h, getElem?_zigzag]
    exact ⟨by omega, rfl⟩
  have hrow := congrArg GridPoint.row ((getElem?_zigzag _ _).mp hnode).2
  have hcolumn : 2 * j / 2 = j := by omega
  simp only [zigzagNode, hcolumn] at hrow
  cases hturned : turned j <;> cases hturned' : turned' j <;> simp [hturned, hturned'] at hrow ⊢

theorem two_pow_le_length_toList (d : Grid α) (hy : 1 ≤ d.numY) (h : kinks ≤ d.kinkLimit)
    {count : Nat} (hcount : 2 * count + 2 ≤ kinks) :
    2 ^ count ≤ (Search.new d kinks).toList.length := by
  have hbit : ∀ n < 2 ^ count, ∀ j, n.testBit j = true → j < count := by
    intro n hn j hj
    by_contra hge
    have hlt : n < 2 ^ j := hn.trans_le (Nat.pow_le_pow_right (by decide) (not_lt.mp hge))
    rw [Nat.testBit_lt_two_pow hlt] at hj
    cases hj
  have hnodup : ((List.range (2 ^ count)).map fun n => zigzag d.numX kinks n.testBit).Nodup := by
    refine List.nodup_range.map_on fun n hn m hm heq => Nat.eq_of_testBit_eq fun j => ?_
    rw [List.mem_range] at hn hm
    by_cases hj : j < count
    · exact turned_eq_of_zigzag_eq heq (by omega)
    · rw [Bool.eq_false_iff.mpr (mt (hbit n hn j) hj), Bool.eq_false_iff.mpr (mt (hbit m hm j) hj)]
  have hsubset : ((List.range (2 ^ count)).map fun n => zigzag d.numX kinks n.testBit) ⊆
      (Search.new d kinks).toList := by
    intro b hb
    obtain ⟨n, hn, rfl⟩ := List.mem_map.mp hb
    rw [Search.mem_toList_new]
    refine isCanonical_zigzag d hy h fun j hj => ?_
    have := hbit n (List.mem_range.mp hn) j hj
    omega
  have hlength := (List.subperm_of_subset hnodup hsubset).length_le
  rwa [List.length_map, List.length_range] at hlength

end GridBoundary

end BoundaryAtlas
