import BoundaryAtlas.Random.Stream

/-!
# Fair choices

A random word is scaled to a range by a product: the high half is the choice. Words whose
low half falls beyond a zone are thrown away, so that every choice is equally likely.
-/

namespace BoundaryAtlas.Random

/-- Words that are thrown away before a choice settles for the first of the range. A word is
kept with a chance of one half at least, so this many are never thrown away in practice. -/
def patience : Nat := 100000

/-- The high half of `word * range`, for the first word whose low half is in the zone. -/
def scaled (word : Draw Nat) (bits range zone : Nat) : (tries : Nat) → Draw Nat
  | 0 => return 0
  | tries + 1 => do
    let product := (← word) * range
    if product % twoPow bits ≤ zone then return product / twoPow bits
    else scaled word bits range zone tries

/-- A choice from `lo` to `hi`, both included, among numbers below `2 ^ 32`. -/
def between (lo hi : Nat) : Draw Nat := do
  let range := (hi - lo + 1) % twoPow 32
  if range = 0 then word32
  else return lo + (← scaled word32 32 range (range * twoPow (31 - range.log2) - 1) patience)

/-- A choice below `n` from words of the given width. -/
def below (word : Draw Nat) (bits n : Nat) : Draw Nat :=
  let top := twoPow bits - 1
  scaled word bits n (top - (top - n + 1) % n) patience

/-! ## Choosing a set of indices -/

/-- One choice for each new top index: the index chosen, or the top if that is taken. -/
def growSet (length : Nat) : (amount : Nat) → List Nat → Draw (List Nat)
  | 0, taken => return taken
  | amount + 1, taken => do
    let top := length - (amount + 1)
    let t ← between 0 top
    growSet length amount (if taken.contains t then top :: taken else t :: taken)

/-- Draws the choices of a shuffle and forgets them. -/
def discardShuffle : (amount : Nat) → Draw Unit
  | 0 | 1 => return ()
  | amount + 2 => do
    let _ ← between 0 (amount + 1)
    discardShuffle (amount + 1)

/-- Moves a choice of the rest to place `i`, `i + 1`, … -/
def shuffleFront (length : Nat) : (amount i : Nat) → Array Nat → Draw (Array Nat)
  | 0, _, a => return a
  | amount + 1, i, a => do
    let j ← between i (length - 1)
    shuffleFront length amount (i + 1) (a.swapIfInBounds i j)

/-- Draws below `length` until `amount` distinct numbers are taken. Those still missing when there
are no tries left are the smallest ones that are not taken. -/
def untilDistinct (draw : Draw Nat) (length : Nat) :
    (tries amount : Nat) → List Nat → Draw (List Nat)
  | _, 0, taken => return taken
  | 0, amount + 1, taken =>
    return ((List.range length).filter (!taken.contains ·)).take (amount + 1) ++ taken
  | tries + 1, amount + 1, taken => do
    let t ← draw
    if taken.contains t then untilDistinct draw length tries (amount + 1) taken
    else untilDistinct draw length tries amount (t :: taken)

/-- The four ways to choose a set. -/
inductive SetMethod where
  | grow
  | shuffle
  | reject32
  | reject64
  deriving DecidableEq, Repr

/-- The method depends on the sizes, by a rule in single precision. -/
def setMethod (length amount : Nat) : SetMethod :=
  let large := 500000 ≤ length
  let l := Float32.ofNat length
  let a := Float32.ofNat amount
  if twoPow 32 ≤ length then .reject64
  else if amount < 163 then
    let factor : Float32 := if large then 8 / 45 else 1.6
    let base : Float32 := if large then 70 / 9 else 10
    if 11 < amount ∧ l < (base + factor * a) * a then .shuffle else .grow
  else
    let factor : Float32 := if large then 330 / 9 else 270
    if l < factor * a then .shuffle else .reject32

/-- A set of `amount` numbers below `length`, in no particular order. -/
def indexSet (length amount : Nat) : Draw (List Nat) := do
  match setMethod length amount with
  | .grow =>
    let taken ← growSet length amount []
    if 50 ≤ amount then discardShuffle amount
    return taken
  | .shuffle => return ((← shuffleFront length amount 0 (Array.range length)).take amount).toList
  | .reject32 => untilDistinct (below word32 32 length) length (patience + amount * 64) amount []
  | .reject64 => untilDistinct (below word64 64 length) length (patience + amount * 64) amount []

end BoundaryAtlas.Random
