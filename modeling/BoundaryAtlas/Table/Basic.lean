import BoundaryAtlas.Atlas.Outcome
import BoundaryAtlas.Files.Path
import BoundaryAtlas.Grid.Key
import BoundaryAtlas.Power

/-!
# Flat tables

A table has one row for each record: the number of kinks, the label and the key of the
boundary. It is stored as text with commas, or in columns if its path says so.
-/

namespace BoundaryAtlas.Table

/-- One row. -/
structure Row where
  /-- A 32-bit number. -/
  kinks : Nat
  label : Bool
  boundary : String
  deriving DecidableEq, Repr

def Row.ofRecord (r : Record) : Row := ⟨r.kinks % twoPow 32, r.label, r.boundary.key⟩

/-- Two ways to store a table. -/
inductive Format where
  | commas
  | columns
  deriving DecidableEq, Repr

/-- The extension `parquet`, in letters of any case, asks for columns. -/
def Format.ofPath (path : String) : Format :=
  match Path.extension? path with
  | some ext => if ext.toList.map Char.toLower = "parquet".toList then .columns else .commas
  | none => .commas

/-! ## Columns -/

/-- A column of a table in memory. -/
inductive Column where
  /-- Words of 32 bits. -/
  | words (cells : List Nat)
  | bools (cells : List Bool)
  | texts (cells : List String)
  deriving DecidableEq, Repr

def Column.length : Column → Nat
  | .words cells => cells.length
  | .bools cells => cells.length
  | .texts cells => cells.length

/-- The columns of some rows, with their names. -/
def columnsOf (rows : List Row) : List (String × Column) :=
  [("kinks", .words (rows.map Row.kinks)), ("label", .bools (rows.map Row.label)),
    ("boundary", .texts (rows.map Row.boundary))]

end BoundaryAtlas.Table
