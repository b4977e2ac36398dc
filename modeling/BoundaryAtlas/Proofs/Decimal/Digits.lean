import Mathlib.Data.List.TakeWhile
import BoundaryAtlas.Proofs.Agreement
import BoundaryAtlas.Decimal.Layout
import BoundaryAtlas.Decimal.Parse

/-!
# Digits read back

A natural number is written in digits, without a zero in front, and read from them.
-/

namespace BoundaryAtlas

namespace Decimal

theorem toList_toString (n : Nat) : (toString n).toList = digitChars n := by
  rw [Nat.toString_eq_ofList_toDigits, String.toList_ofList]
  rfl

theorem isDigit_of_mem_digitChars {n : Nat} {c : Char} (h : c ∈ digitChars n) : c.isDigit = true :=
  Nat.isDigit_of_mem_toDigits (by decide) (by decide) h

theorem all_isDigit_digitChars (n : Nat) : (digitChars n).all Char.isDigit = true :=
  List.all_eq_true.mpr fun _ => isDigit_of_mem_digitChars

theorem digitChars_eq_cons (n : Nat) : ∃ c cs, digitChars n = c :: cs ∧ c.isDigit = true := by
  obtain ⟨c, cs, hcs⟩ := List.exists_cons_of_ne_nil (Nat.toDigits_ne_nil (n := n) (b := 10))
  refine ⟨c, cs, hcs, isDigit_of_mem_digitChars (n := n) ?_⟩
  rw [digitChars, hcs]
  exact List.mem_cons_self

theorem head?_digitChars_ne_zero {n : Nat} (h : 0 < n) : (digitChars n).head? ≠ some '0' := by
  induction n using Nat.strongRecOn with
  | ind n ih =>
    rw [digitChars, Nat.toDigits_eq_if (by decide)]
    split
    · rename_i hlt
      have hdigit : ∀ d < 10, 0 < d → d.digitChar ≠ '0' := by decide
      simpa using hdigit n hlt h
    · rename_i hge
      have hrest := ih (n / 10) (Nat.div_lt_self h (by decide)) (by omega)
      obtain ⟨c, cs, hcs, -⟩ := digitChars_eq_cons (n / 10)
      rw [digitChars] at hrest hcs
      rw [hcs] at hrest ⊢
      exact hrest

theorem parseDigits?_digitChars (n : Nat) : parseDigits? (digitChars n) = some n := by
  rw [parseDigits?, if_pos ⟨Nat.toDigits_ne_nil, all_isDigit_digitChars n⟩]
  exact congrArg some Nat.ofDigitChars_ten_toDigits

theorem cutSign_digitChars (n : Nat) : cutSign (digitChars n) = (false, digitChars n) := by
  obtain ⟨c, cs, hcs, hc⟩ := digitChars_eq_cons n
  rw [hcs]
  unfold cutSign
  split
  · rename_i h
    obtain ⟨rfl, -⟩ := List.cons.inj h
    exact absurd hc (by decide)
  · rename_i h
    obtain ⟨rfl, -⟩ := List.cons.inj h
    exact absurd hc (by decide)
  · rfl

end Decimal

end BoundaryAtlas
