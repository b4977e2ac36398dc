import BoundaryAtlas.Power

/-!
# Machines

The library counts with words and takes some conditions for granted. What comes of a count that
does not fit its word, or of a condition that does not hold, depends on the machine it runs on. The
programs of the library are written once, over any machine.

On the ideal machine there are no bounds, and no condition is looked at. The machine of words stops
at the first count that does not fit and at the first condition that fails, as a program does that
is built with all checks. A machine that stops answers with `none`.
-/

namespace BoundaryAtlas

/-- What becomes of the counts and the conditions of a program. -/
structure Machine (m : Type → Type) where
  /-- A column or a row. -/
  index : Nat → m Nat
  /-- A difference of columns or rows, or a product of two of them. -/
  signed : Int → m Int
  /-- A number of outcomes. -/
  size : Nat → m Nat
  /-- The bytes of one list. -/
  bytes : Nat → m Nat
  /-- A condition that has to hold. -/
  check : Bool → m Unit

namespace Machine

/-- Counts without end and looks at no condition. -/
def ideal : Machine Id where
  index := pure
  signed := pure
  size := pure
  bytes := pure
  check := fun _ => pure ()

/-- Counts without end and stops at a condition that fails. -/
def checked : Machine Option where
  index := some
  signed := some
  size := some
  bytes := some
  check := fun holds => guard holds

/-- A number below `bound`. -/
def below (bound n : Nat) : Option Nat := if n < bound then some n else none

/-- A number of a signed word with 64 bits. -/
def signedWord (z : Int) : Option Int :=
  if -(twoPow 63 : Int) ≤ z ∧ z < (twoPow 63 : Int) then some z else none

/-- Columns and rows are words of 32 bits, differences and products are signed words of 64 bits,
outcomes are counted with 64 bits, and a list has fewer than `2 ^ 63` bytes. -/
def words : Machine Option where
  index := below (twoPow 32)
  signed := signedWord
  size := below (twoPow 64)
  bytes := below (twoPow 63)
  check := fun holds => guard holds

variable {m : Type → Type} (M : Machine m)

/-- The column or row after `n`. -/
@[inline] def succ (n : Nat) : m Nat := M.index (n + 1)

/-! ## Faults on the ideal machine -/

variable {ε β γ : Type}

theorem run_bind (x : ExceptT ε Id β) (f : β → ExceptT ε Id γ) :
    (x >>= f).run.run = x.run.run >>= fun b => (f b).run.run := by
  cases h : x.run.run <;> (obtain rfl : x = _ := h; rfl)

theorem run_mapM (f : β → ExceptT ε Id γ) (l : List β) :
    (l.mapM f).run.run = l.mapM fun b => (f b).run.run := by
  induction l with
  | nil => rfl
  | cons b l ih =>
    rw [List.mapM_cons, List.mapM_cons, ← ih, run_bind]
    refine bind_congr fun r => ?_
    rw [run_bind]
    rfl

end Machine

end BoundaryAtlas
