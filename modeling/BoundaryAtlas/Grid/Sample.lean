import BoundaryAtlas.Grid.Boundary
import BoundaryAtlas.Random.Seed
import BoundaryAtlas.Random.Source

/-!
# Random boundaries

A draw chooses the inner columns as a set of slots: the slots in order, each less its rank,
are columns that never go back. It chooses a row for every point. A draw is accepted if all
inner points are kinks. Every boundary in canonical form has exactly one draw, so all are
equally likely.
-/

namespace BoundaryAtlas

/-- What is drawn for one boundary. -/
structure SampleDraw where
  /-- Distinct numbers below `numX + kinks`, in order. -/
  slots : List Nat
  /-- A row for each point. -/
  rows : List Nat
  deriving DecidableEq, Repr

namespace SampleDraw

/-- The inner columns: each slot less the number of slots before it. -/
def columns (d : SampleDraw) : List Nat := d.slots.zipIdx.map fun (slot, rank) => slot - rank

/-- The boundary that the draw stands for. -/
def boundary (d : SampleDraw) (numX : Nat) : GridBoundary :=
  ⟨List.zipWith GridPoint.mk (0 :: d.columns ++ [numX]) d.rows⟩

end SampleDraw

namespace RandomSource

variable (R : RandomSource)

/-- A row for each of `n` points. -/
def rows (numY : Nat) : (n : Nat) → StateM R.Stream (List Nat)
  | 0 => return []
  | n + 1 => do
    let row ← R.upTo numY
    return row :: (← rows numY n)

/-- Draws the slots first, and then the rows from left to right. -/
def sampleDraw (numX numY kinks : Nat) : StateM R.Stream SampleDraw := do
  let slots ← R.indexSet (numX + kinks) kinks
  return ⟨slots.mergeSort, ← R.rows numY (kinks + 2)⟩

end RandomSource

namespace GridBoundary

/-- How often a draw may be refused. -/
def maxDraws : Nat := 10000

end GridBoundary

namespace Machine

variable {m : Type → Type} [Monad m] (M : Machine m) (R : RandomSource)

/-- The first boundary with the wanted number of kinks among `draws` draws. -/
def firstAccepted (numX numY kinks : Nat) : (draws : Nat) → R.Stream → m (Option GridBoundary)
  | 0, _ => return none
  | draws + 1, stream => do
    let (draw, stream) := R.sampleDraw numX numY kinks stream
    let b := draw.boundary numX
    if (← M.kinks b) = kinks then return some b else firstAccepted numX numY kinks draws stream

/-- The random boundary with `kinks` kinks that the key names. -/
def sample {α : Type} [Scalar α] (d : Grid α) (kinks : Nat) (key : DrawKey) :
    ExceptT (Fault α) m GridBoundary := do
  d.validate
  if d.kinkLimit < kinks then
    throw (.param (.tooManyKinks kinks d.kinkLimit (← M.succ d.numX)))
  match ← M.firstAccepted R d.numX d.numY kinks GridBoundary.maxDraws
      (R.ofSeed key.streamSeed) with
  | some b => return b
  | none => throw (.param (.noAcceptedDraw kinks GridBoundary.maxDraws))

end Machine

/-- The random boundary with `kinks` kinks that the key names, by the keystream of ChaCha. -/
def GridBoundary.sample {α : Type} [Scalar α] (d : Grid α) (kinks : Nat) (key : DrawKey) :
    Except (Fault α) GridBoundary :=
  (Machine.ideal.sample Random.chaCha d kinks key).run.run

end BoundaryAtlas
