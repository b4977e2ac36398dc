import BoundaryAtlas.Grid.Boundary

/-!
# All boundaries with a given number of kinks

A boundary in canonical form runs from the first column to the last, and each of its inner
points is a kink. So a boundary with `n` kinks has `n + 2` points, a column holds at most
two of them, and a polyline has one form only.

The search goes through these boundaries in order. It fills the points from left to right,
and gives up a beginning as soon as three neighbours lie on one line. What it has to remember
between two boundaries is the boundary it found last.
-/

namespace BoundaryAtlas

/-- Where a search is. Points are kept with the last one first. -/
inductive SearchPosition where
  | start
  | after (path : List GridPoint)
  | finished
  deriving DecidableEq, Repr

/-- A search for the boundaries with `kinks` kinks on a grid. -/
structure Search where
  numX : Nat
  numY : Nat
  kinks : Nat
  position : SearchPosition
  deriving DecidableEq, Repr

namespace Search

/-- A new search. More kinks than the grid has room for are not looked for. -/
def new {α : Type} (d : Grid α) (kinks : Nat) : Search :=
  ⟨d.numX, d.numY, kinks, if d.kinkLimit < kinks then .finished else .start⟩

/-- No more boundaries than this are left. -/
def bound (s : Search) : Nat :=
  if s.position = .finished then 0 else Nat.pow ((s.numX + 1) * (s.numY + 1)) (s.kinks + 2)

end Search

/-- What comes of a node. It may not stand there, or it may, but leads nowhere. -/
inductive Trial (β : Type) where
  | refused
  | deadEnd
  | found (answer : β)
  deriving DecidableEq, Repr

namespace Machine

variable {m : Type → Type} [Monad m] (M : Machine m) {β : Type}

/-! ## Going through nodes -/

/-- The first answer in a column. After a node that is refused the row is counted up, also after
the top one. A dead end in the top row ends the column. -/
@[specialize] def scanRows (f : GridPoint → m (Trial β)) (col : Nat) :
    (count row : Nat) → m (Option β)
  | 0, _ => return none
  | count + 1, row => do
    match ← f ⟨col, row⟩ with
    | .found answer => return some answer
    | .refused => scanRows f col count (← M.succ row)
    | .deadEnd => scanRows f col count (row + 1)

/-- The first answer in `count` columns. After each of them the column is counted up, also after
the last one. -/
@[specialize] def scanColumns (f : GridPoint → m (Trial β)) (numY : Nat) :
    (count col : Nat) → m (Option β)
  | 0, _ => return none
  | count + 1, col => do
    match ← M.scanRows f col (numY + 1) 0 with
    | some answer => return some answer
    | none => scanColumns f numY count (← M.succ col)

/-- The first answer at `start` or after it, up to column `hi`. -/
@[specialize] def scan (f : GridPoint → m (Trial β)) (numY hi : Nat) (start : GridPoint) :
    m (Option β) :=
  if start.col ≤ hi then do
    match ← M.scanRows f start.col (numY + 1 - start.row) start.row with
    | some answer => return some answer
    | none => M.scanColumns f numY (hi - start.col) (← M.succ start.col)
  else return none

/-! ## The search -/

/-- The columns for the point after `path`, when `rest` more points follow it. A third point
in one column would lie on one line with the two before it. -/
@[specialize] def columns (s : Search) (path : List GridPoint) (rest : Nat) : m (Interval Nat) :=
  match path with
  | [] => return ⟨0, 0⟩
  | q :: before =>
    if rest = 0 then return ⟨s.numX, s.numX⟩
    else if before.head?.any (·.col = q.col) then do return ⟨← M.succ q.col, s.numX⟩
    else return ⟨q.col, s.numX⟩

/-- The last point of `path` stays a kink when `p` follows it. -/
@[specialize] def staysKink (path : List GridPoint) (p : GridPoint) : m Bool :=
  match path with
  | q :: o :: _ => do return !(← M.collinear o q p)
  | _ => return true

/-- Puts `p` after `path`, and lets `fillRest` add the points that are missing. -/
@[specialize] def tryNode (fillRest : List GridPoint → m (Option (List GridPoint)))
    (path : List GridPoint) (p : GridPoint) : m (Trial (List GridPoint)) := do
  if ← M.staysKink path p then
    match ← fillRest (p :: path) with
    | some found => return .found found
    | none => return .deadEnd
  else return .refused

/-- The first way to add `rest` points to `path`. -/
@[specialize] def fill (s : Search) :
    (rest : Nat) → (path : List GridPoint) → m (Option (List GridPoint))
  | 0, path => return some path
  | rest + 1, path => do
    let cols ← M.columns s path rest
    M.scan (M.tryNode (fill s rest) path) s.numY cols.hi ⟨cols.lo, 0⟩

/-- The first way to add a point at `start` or after it, and then `rest` points. -/
@[specialize] def fillFrom (s : Search) (rest : Nat) (path : List GridPoint) (start : GridPoint) :
    m (Option (List GridPoint)) := do
  let cols ← M.columns s path rest
  M.scan (M.tryNode (M.fill s rest) path) s.numY cols.hi
    (if cols.lo ≤ start.col then start else ⟨cols.lo, 0⟩)

/-- The node after `p`, column by column. -/
@[specialize] def nodeAfter (s : Search) (p : GridPoint) : m GridPoint :=
  if p.row < s.numY then return ⟨p.col, p.row + 1⟩ else do return ⟨← M.succ p.col, 0⟩

/-- Takes points back from the end of `path` until another node leads on. -/
@[specialize] def resume (s : Search) :
    (rest : Nat) → (path : List GridPoint) → m (Option (List GridPoint))
  | _, [] => return none
  | rest, q :: path => do
    match ← M.fillFrom s rest path (← M.nodeAfter s q) with
    | some found => return some found
    | none => resume s (rest + 1) path

/-- The points of the next boundary, with the last one first. -/
@[specialize] def path (s : Search) : m (Option (List GridPoint)) :=
  match s.position with
  | .start => M.fill s (s.kinks + 2) []
  | .after path => M.resume s 0 path
  | .finished => return none

/-- The next boundary, and the search after it. The node after the last point is computed at
once. -/
@[specialize] def next (s : Search) : m (Option GridBoundary × Search) := do
  match ← M.path s with
  | some path =>
    if let some last := path.head? then
      let _ ← M.nodeAfter s last
    return (some ⟨path.reverse⟩, { s with position := .after path })
  | none => return (none, { s with position := .finished })

/-! ## Running a search -/

/-- A new search, with room for its points. -/
@[specialize] def search {α : Type} (d : Grid α) (kinks : Nat) : m Search := do
  let _ ← M.bytes (8 * (kinks + 2))
  return .new d kinks

/-- The search after `n` calls of `next`. -/
@[specialize] def afterCalls (s : Search) : Nat → m Search
  | 0 => return s
  | n + 1 => do afterCalls (← M.next s).2 n

/-- Up to `limit` times takes the next boundary and gives it to `visit`. Stops early when
`visit` answers with `false`; that boundary counts as not taken. -/
@[specialize] def visitUpTo (visit : β → GridBoundary → m (Bool × β)) :
    (limit : Nat) → Search → β → m (β × Search)
  | 0, s, state => return (state, s)
  | limit + 1, s, state => do
    match ← M.next s with
    | (none, after) => return (state, after)
    | (some b, after) =>
      match ← visit state b with
      | (false, state) => return (state, s)
      | (true, state) => visitUpTo visit limit after state

/-- Gives every boundary that is left to `visit`, until that answers with `false`. -/
@[specialize] def visit (visit : β → GridBoundary → m (Bool × β)) (s : Search) (state : β) : m β :=
  do return (← M.visitUpTo visit (s.bound + 1) s state).1

/-- How many boundaries there are among the next `limit`, and the search after them. -/
@[specialize] def skip (limit : Nat) (s : Search) : m (Nat × Search) :=
  M.visitUpTo (fun n _ => return (true, n + 1)) limit s 0

/-- How many boundaries are left. -/
@[specialize] def count (s : Search) : m Nat := M.visit (fun n _ => return (true, n + 1)) s 0

/-- The boundaries that are left, in order. -/
@[specialize] def toList (s : Search) : m (List GridBoundary) := do
  return (← M.visit (fun found b => return (true, found.push b)) s #[]).toList

end Machine

/-! ## Without bounds -/

namespace Search

variable {β : Type}

def columns (s : Search) (path : List GridPoint) (rest : Nat) : Interval Nat :=
  (Machine.ideal.columns s path rest).run

def staysKink (path : List GridPoint) (p : GridPoint) : Bool :=
  (Machine.ideal.staysKink path p).run

def fill (s : Search) (rest : Nat) (path : List GridPoint) : Option (List GridPoint) :=
  (Machine.ideal.fill s rest path).run

def fillFrom (s : Search) (rest : Nat) (path : List GridPoint) (start : GridPoint) :
    Option (List GridPoint) :=
  (Machine.ideal.fillFrom s rest path start).run

def nodeAfter (s : Search) (p : GridPoint) : GridPoint := (Machine.ideal.nodeAfter s p).run

def resume (s : Search) (rest : Nat) (path : List GridPoint) : Option (List GridPoint) :=
  (Machine.ideal.resume s rest path).run

def next? (s : Search) : Option (List GridPoint) := (Machine.ideal.path s).run

def next (s : Search) : Option GridBoundary × Search := (Machine.ideal.next s).run

def afterCalls (s : Search) (n : Nat) : Search := (Machine.ideal.afterCalls s n).run

def visitUpTo (visit : β → GridBoundary → Bool × β) (limit : Nat) (s : Search) (state : β) :
    β × Search :=
  (Machine.ideal.visitUpTo (fun state b => pure (visit state b)) limit s state).run

def visit (visit : β → GridBoundary → Bool × β) (s : Search) (state : β) : β :=
  (Machine.ideal.visit (fun state b => pure (visit state b)) s state).run

def toList (s : Search) : List GridBoundary := (Machine.ideal.toList s).run

end Search

end BoundaryAtlas
