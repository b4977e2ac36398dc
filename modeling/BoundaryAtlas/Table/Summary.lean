import BoundaryAtlas.Table.Csv
import BoundaryAtlas.Table.Library

/-!
# Tables in memory

A frame is a list of named columns of one length. Rows are grouped by the values of a column, which
are compared as the order compares them, and sorted by them.
-/

namespace BoundaryAtlas.Table

/-- Columns by name, all of one length. A cell may have no value. -/
structure Frame where
  columns : List (String × List (Option Value))
  deriving DecidableEq, Repr

namespace Frame

def column? (f : Frame) (name : String) : Option (List (Option Value)) :=
  (f.columns.find? (·.1 = name)).map (·.2)

end Frame

def Column.cells : Column → List (Option Value)
  | .words cells => cells.map fun n : Nat => some (.integer n)
  | .bools cells => cells.map fun b => some (.bool b)
  | .texts cells => cells.map fun s => some (.text s.toList)

/-- Columns side by side, if they are of one length and not too long. -/
def Frame.ofColumns? (columns : List (String × Column)) : Option Frame :=
  let lengths := columns.map (·.2.length)
  if lengths.all fun n => n = lengths.headD 0 ∧ n < maxRows then
    some ⟨columns.map fun c => (c.1, c.2.cells)⟩
  else none

/-! ## Records -/

/-- Three cells as a row of a table of records. -/
def Row.ofCells? : Option Value × Option Value × Option Value → Option Row
  | (some (.integer kinks), some (.bool label), some (.text boundary)) =>
    some ⟨kinks.toNat, label, String.ofList boundary⟩
  | _ => none

/-- The rows of a table of records. -/
def Frame.rows (f : Frame) : List Row :=
  match f.column? "kinks", f.column? "label", f.column? "boundary" with
  | some kinks, some labels, some boundaries =>
    (kinks.zip (labels.zip boundaries)).filterMap Row.ofCells?
  | _, _, _ => []

/-! ## Stored tables -/

/-- What a table file holds. -/
inductive Stored where
  | text (content : List Char)
  | columns (rows : List Row)
  deriving DecidableEq, Repr

/-- Stores a table of records in a format. -/
def store (format : Format) (f : Frame) : Stored :=
  match format with
  | .commas => .text (csv f.rows)
  | .columns => .columns f.rows

def Stored.sheet? : Stored → Option Sheet
  | .text content => Sheet.ofText? content
  | .columns _ => none

def Stored.rows? : Stored → Option (List Row)
  | .text _ => none
  | .columns rows => some rows

/-! ## Scanning -/

/-- The number of rows that the kind of a column is found from. -/
def sampleSize : Nat := 100

/-- The cell at an index. A row may be too short to have one. -/
def cellAt (index : Nat) (cells : List Cell) : Cell := (cells[index]?).getD []

/-- The kind of the cells under a name of the header. -/
def Sheet.kindOf (s : Sheet) (name : List Char) : Kind :=
  let index := s.header.idxOf name
  .common ((firstLines sampleSize s.body).filterMap fun line =>
    Kind.ofCell? (cellAt index (lineCells (index + 1) line)))

/-- The first `width + 1` cells of all rows. Other columns are not looked at. If all of them are
wanted, no row may go on behind its last cell. -/
def Sheet.rows? (s : Sheet) (wanted width : Nat) : Option (List (List Cell)) :=
  let fronts := rowFronts width s.body
  if s.columns.length = wanted ∧ fronts.any RowFront.goesOn then none
  else some (fronts.map RowFront.cells)

/-- The wanted columns of some sheets. The sheets have one list of columns, and each column is of
one kind in all of them. -/
def scanSheets? (wanted : List String) (sheets : List Sheet) : Option Frame := do
  let first ← sheets.head?
  let places ← wanted.mapM fun name => first.columns.idxOf? name.toList
  if sheets.any (·.columns ≠ first.columns) then none
  else
    let rows := (← sheets.mapM (·.rows? wanted.length (places.foldl max 0))).flatten
    let columns ← (wanted.zip places).mapM fun (name, place) => do
      let kind := Kind.joinAll (sheets.map (·.kindOf name.toList))
      return (name, ← rows.mapM fun cells => kind.read? (cellAt place cells))
    return ⟨columns⟩

/-- The wanted columns of some rows. -/
def scanRows? (wanted : List String) (rows : List Row) : Option Frame := do
  let all : Frame := ⟨(columnsOf rows).map fun c => (c.1, c.2.cells)⟩
  return ⟨← wanted.mapM fun name => do return (name, ← all.column? name)⟩

/-- The wanted columns of some files. A file in the wrong format cannot be read. -/
def scan? (format : Format) (wanted : List String) (files : List Stored) : Option Frame :=
  match format with
  | .commas => (files.mapM Stored.sheet?).bind (scanSheets? wanted)
  | .columns => (files.mapM Stored.rows?).bind fun rows => scanRows? wanted rows.flatten

/-! ## Groups -/

/-- Missing values are before all others. -/
def before : Option Value → Option Value → Bool
  | none, some _ => true
  | some a, some b => a.before b
  | _, none => false

/-- Neither value is before the other one. -/
def same (a b : Option Value) : Bool := !before a b && !before b a

/-- The values of a column, each where it stands first. -/
def distinct : List (Option Value) → List (Option Value)
  | [] => []
  | v :: vs => v :: (distinct vs).filter fun w => !same v w

/-- The aggregate of the rows with the value `v` in the column `keys`. -/
def Aggregate.of? (f : Frame) (keys : List (Option Value)) (v : Option Value) :
    Aggregate → Option (Option Value)
  | .len => some (some (.integer (keys.countP (same v))))
  | .sum32 column => do
    let group := (keys.zip (← f.column? column)).filter (same v ·.1)
    let total := group.foldl (fun total x => total + (x.2.map Value.weight).getD 0) 0
    return some (.integer ((total % twoPow 32 : Nat) : Int))

def Frame.groupBy? (key : String) (aggregates : List (String × Aggregate)) (f : Frame) :
    Option Frame := do
  let keys ← f.column? key
  let values := distinct keys
  let columns ← aggregates.mapM fun a => do
    return (a.1, ← values.mapM fun v => a.2.of? f keys v)
  return ⟨(key, values) :: columns⟩

/-! ## Order -/

/-- Picks rows in an order. -/
def Frame.pick (f : Frame) (order : List Nat) : Frame :=
  ⟨f.columns.map fun c => (c.1, order.filterMap (c.2[·]?))⟩

def Frame.sortBy? (key : String) (f : Frame) : Option Frame := do
  let keys ← f.column? key
  let notAfter := fun i j => !before (keys[j]?.getD none) (keys[i]?.getD none)
  return f.pick ((List.range keys.length).mergeSort notAfter)

/-- Tables as they are held and stored here. -/
@[reducible] def library : TableLibrary where
  Frame := Frame
  Stored := Stored
  frame? := Frame.ofColumns?
  write := store
  scan? := scan?
  groupBy? := Frame.groupBy?
  sortBy? := Frame.sortBy?
  column? name f := f.column? name

/-! ## Printing -/

/-- The cells of columns row by row. -/
def sideBySide : (count : Nat) → List (List (Option Value)) → List (List (Option Value))
  | 0, _ => []
  | count + 1, columns => columns.map (·.headD none) :: sideBySide count (columns.map List.tail)

/-- The rows line by line, under the names of their columns. -/
def Frame.toText (f : Frame) : String :=
  let columns := f.columns.map (·.2)
  let line := fun (cells : List (Option Value)) =>
    " ".intercalate (cells.map fun v => (v.map Value.toText).getD "null") ++ "\n"
  " ".intercalate (f.columns.map (·.1)) ++ "\n" ++
    String.join ((sideBySide (columns.headD []).length columns).map line)

end BoundaryAtlas.Table
