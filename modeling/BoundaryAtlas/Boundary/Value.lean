import BoundaryAtlas.Boundary.Basic
import BoundaryAtlas.Machine

/-!
# The value of a boundary at a time

Between two points a boundary is the straight line. At a vertical jump it has the value
after the jump. Beyond the ends it has no value, unless the outer segments are extended.
-/

namespace BoundaryAtlas

/-- How far a time may lie outside a domain and still count as its end. -/
def domainSlack {α : Type} [Scalar α] : α := Scalar.ofDecimal 1 9

namespace Boundary

variable {α : Type} [Scalar α]

/-- The first two neighbours of which the right one lies beyond `t`. -/
@[specialize] def segmentPast? (t : α) : List (Point α) → Option (Point α × Point α)
  | p :: q :: rest => if q.x ≤ t then segmentPast? t (q :: rest) else some (p, q)
  | _ => none

/-- The last two neighbours of which the left one lies before `t`. -/
@[specialize] def segmentBefore? (t : α) : List (Point α) → Option (Point α × Point α)
  | p :: q :: rest =>
    match segmentBefore? t (q :: rest) with
    | some s => some s
    | none => if p.x < t then some (p, q) else none
  | _ => none

/-- The point at time `t` on the segment from `p` to `q`. -/
@[specialize] def interpolate (p q : Point α) (t : α) : α :=
  let s := (t - p.x) / (q.x - p.x)
  p.y + s * (q.y - p.y)

/-- The value at a time of the domain. -/
@[specialize] def valueInside (b : Boundary α) (t : α) : α :=
  if b.last.x ≤ t then b.last.y
  else
    match segmentPast? t b.points with
    | some (p, q) => interpolate p q t
    | none => b.last.y

/-- The time lies in the domain, or so near to it that it counts as an end. -/
@[specialize] def covers (b : Boundary α) (t : α) : Bool :=
  !(decide (t < b.first.x - domainSlack) || decide (b.last.x + domainSlack < t) ||
    !Scalar.isFinite t)

/-- The line through `anchor` with the slope of the segment from `p` to `q`. -/
@[specialize] def onLine (p q anchor : Point α) (t : α) : α :=
  let slope := (q.y - p.y) / (q.x - p.x)
  anchor.y + slope * (t - anchor.x)

/-- The value before the domain, on the first segment that is not vertical. -/
@[specialize] def valueBefore (b : Boundary α) (t : α) : α :=
  match segmentPast? b.first.x b.points with
  | some (p, q) => onLine p q p t
  | none => b.last.y

/-- The value after the domain, on the last segment that is not vertical. -/
@[specialize] def valueAfter (b : Boundary α) (t : α) : α :=
  match segmentBefore? b.last.x b.points with
  | some (p, q) => onLine p q b.last t
  | none => b.last.y

end Boundary

namespace Machine

variable {m : Type → Type} [Monad m] (M : Machine m) {α : Type} [Scalar α]

/-- Moves `t` into `[lo, hi]`, which has to be an interval. -/
@[specialize] def clamp (t lo hi : α) : m α := do
  M.check (decide (lo ≤ hi))
  return Scalar.clamp t lo hi

/-- The value at `t`, where times just outside count as the ends. -/
@[specialize] def valueAt (b : Boundary α) (t : α) : ExceptT (Fault α) m α := do
  if b.covers t then return b.valueInside (← (M.clamp t b.first.x b.last.x : m α))
  else throw (.outsideDomain t b.first.x b.last.x)

/-- The value at `t`, where the outer segments go on beyond the ends. -/
@[specialize] def extendedValueAt (b : Boundary α) (t : α) : ExceptT (Fault α) m α := do
  if !Scalar.isFinite t then throw (.outsideDomain t b.first.x b.last.x)
  else if b.first.x - domainSlack ≤ t ∧ t ≤ b.last.x + domainSlack then M.valueAt b t
  else if t < b.first.x then return b.valueBefore t
  else return b.valueAfter t

end Machine

namespace Boundary

variable {α : Type} [Scalar α]

def valueAt (b : Boundary α) (t : α) : Except (Fault α) α := (Machine.ideal.valueAt b t).run.run

def extendedValueAt (b : Boundary α) (t : α) : Except (Fault α) α :=
  (Machine.ideal.extendedValueAt b t).run.run

theorem valueAt_def (b : Boundary α) (t : α) :
    b.valueAt t =
      if b.covers t then .ok (b.valueInside (Scalar.clamp t b.first.x b.last.x))
      else .error (.outsideDomain t b.first.x b.last.x) := by
  unfold valueAt Machine.valueAt
  split <;> rfl

theorem extendedValueAt_def (b : Boundary α) (t : α) :
    b.extendedValueAt t =
      if !Scalar.isFinite t then .error (.outsideDomain t b.first.x b.last.x)
      else if b.first.x - domainSlack ≤ t ∧ t ≤ b.last.x + domainSlack then b.valueAt t
      else if t < b.first.x then .ok (b.valueBefore t)
      else .ok (b.valueAfter t) := by
  unfold extendedValueAt Machine.extendedValueAt
  split
  · rfl
  · split
    · rfl
    · split <;> rfl

end Boundary

end BoundaryAtlas
