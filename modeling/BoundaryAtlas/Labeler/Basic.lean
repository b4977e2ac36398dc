import BoundaryAtlas.Trace.Synthesis

/-!
# Labelers

A labeler gives a verdict on a trace. It may remember what it saw, so it is a machine with a
state of type `σ`. A labeler that remembers nothing has the state `Unit`.
-/

namespace BoundaryAtlas

/-- A machine that labels traces. -/
structure Labeler (α σ : Type) where
  name : String
  /-- Verdicts do not depend on the order of the traces. -/
  parallelSafe : Bool
  /-- Refuses traces over `[start, stop]` for which there would be no verdict. -/
  checkDomain : (start stop : α) → Except (Fault α) Unit
  classify : σ → Trace α → Bool × σ

namespace Labeler

variable {α σ : Type}

/-- A labeler that is a plain function. -/
def ofFn (name : String) (f : Trace α → Bool) : Labeler α Unit where
  name := name
  parallelSafe := true
  checkDomain := fun _ _ => .ok ()
  classify := fun _ trace => (f trace, ())

/-- Counts the calls of another labeler, so that a run can be cancelled after some of them. -/
def counting (inner : Labeler α σ) (name : String) : Labeler α (Nat × σ) where
  name := name
  parallelSafe := false
  checkDomain := inner.checkDomain
  classify := fun (calls, state) trace =>
    let (verdict, state) := inner.classify state trace
    (verdict, calls + 1, state)

end Labeler

end BoundaryAtlas
