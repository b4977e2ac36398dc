import BoundaryAtlas.Grid.Key
import BoundaryAtlas.Proofs.Decimal.Digits

/-!
# Keys read back

A key is cut at the semicolons into nodes, and each of them at its colon into two numbers. Digits
hold neither of the two, so what is read is what was written, and no two boundaries share a key.
-/

namespace BoundaryAtlas

open Decimal (digitChars isDigit_of_mem_digitChars parseDigits? parseDigits?_digitChars)

/-! ## Reading -/

/-- A node from its key. -/
def GridPoint.ofKey? (key : List Char) : Option GridPoint :=
  match key.splitOn ':' with
  | [col, row] => do return ⟨← parseDigits? col, ← parseDigits? row⟩
  | _ => none

/-- A boundary from its key. The empty key is that of no nodes. -/
def GridBoundary.ofKey? (key : String) : Option GridBoundary :=
  if key.toList = [] then some ⟨[]⟩
  else ((key.toList.splitOn ';').mapM GridPoint.ofKey?).map GridBoundary.mk

/-! ## Nodes -/

namespace GridPoint

theorem toList_key (p : GridPoint) :
    p.key.toList = digitChars p.col ++ ':' :: digitChars p.row := by
  unfold key
  simp only [String.toList_append, Decimal.toList_toString]
  simp

theorem notMem_digitChars {c : Char} (hc : c.isDigit = false) (n : Nat) : c ∉ digitChars n := by
  intro h
  rw [isDigit_of_mem_digitChars h] at hc
  cases hc

theorem semicolon_notMem_key (p : GridPoint) : ';' ∉ p.key.toList := by
  rw [toList_key, List.mem_append, List.mem_cons]
  rintro (h | h | h)
  · exact notMem_digitChars (by decide) p.col h
  · exact absurd h (by decide)
  · exact notMem_digitChars (by decide) p.row h

theorem splitOn_key (p : GridPoint) :
    p.key.toList.splitOn ':' = [digitChars p.col, digitChars p.row] := by
  have hjoin : p.key.toList = [':'].intercalate [digitChars p.col, digitChars p.row] := by
    rw [toList_key]
    simp
  rw [hjoin]
  apply List.splitOn_intercalate ':' _ (List.cons_ne_nil _ _)
  simp only [List.forall_mem_cons]
  exact ⟨notMem_digitChars (by decide) _, notMem_digitChars (by decide) _, nofun⟩

theorem ofKey?_key (p : GridPoint) : ofKey? p.key.toList = some p := by
  unfold ofKey?
  rw [splitOn_key]
  simp only [parseDigits?_digitChars]
  rfl

theorem key_ne_nil (p : GridPoint) : p.key.toList ≠ [] := by
  rw [toList_key]
  simp

end GridPoint

/-! ## Boundaries -/

namespace GridBoundary

theorem toList_key (b : GridBoundary) :
    b.key.toList = [';'].intercalate (b.points.map fun p => p.key.toList) := by
  unfold key
  rw [String.toList_intercalate, List.map_map]
  rfl

theorem splitOn_key (b : GridBoundary) (h : b.points ≠ []) :
    b.key.toList.splitOn ';' = b.points.map fun p => p.key.toList := by
  rw [toList_key]
  apply List.splitOn_intercalate
  · rintro _ hmem
    obtain ⟨p, -, rfl⟩ := List.mem_map.mp hmem
    exact p.semicolon_notMem_key
  · simpa using h

theorem key_eq_nil_iff (b : GridBoundary) : b.key.toList = [] ↔ b.points = [] := by
  constructor
  · intro h
    by_contra hne
    -- cut at the semicolons, the empty text is one empty piece, and no node is written like that
    have hpieces := b.splitOn_key hne
    rw [h, List.splitOn_nil] at hpieces
    obtain ⟨p, -, hp⟩ := List.mem_map.mp (hpieces ▸ List.mem_singleton_self ([] : List Char))
    exact p.key_ne_nil hp
  · intro h
    rw [toList_key, h]
    rfl

theorem ofKey?_key (b : GridBoundary) : ofKey? b.key = some b := by
  unfold ofKey?
  split
  · rename_i h
    rw [← b.key_eq_nil_iff.mp h]
  · rename_i h
    have hne : b.points ≠ [] := fun hnil => h (b.key_eq_nil_iff.mpr hnil)
    rw [b.splitOn_key hne, List.mapM_map, mapM_eq_some_map (g := id) fun p _ => p.ofKey?_key]
    simp

/-- **Keys.** A boundary is read from its key, so boundaries with the same key are the same. -/
theorem key_injective :
    (∀ b : GridBoundary, ofKey? b.key = some b) ∧ ∀ a b : GridBoundary, a.key = b.key ↔ a = b := by
  refine ⟨ofKey?_key, fun a b => ⟨fun h => ?_, congrArg key⟩⟩
  have hread : ofKey? a.key = ofKey? b.key := congrArg ofKey? h
  rw [ofKey?_key, ofKey?_key] at hread
  exact Option.some.inj hread

example : ofKey? "0:5;12:3;4:10" = some ⟨[⟨0, 5⟩, ⟨12, 3⟩, ⟨4, 10⟩]⟩ := by decide +kernel

end GridBoundary

end BoundaryAtlas
