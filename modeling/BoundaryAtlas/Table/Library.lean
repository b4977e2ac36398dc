import BoundaryAtlas.Table.Basic
import BoundaryAtlas.Table.Value

/-!
# Table libraries

A library holds tables in memory as frames, writes frames to files and reads them again, groups the
rows of a frame and sorts them. The tables of this project are made and summed up with any library.
-/

namespace BoundaryAtlas

open Table

/-- What is computed for each group of rows. -/
inductive Table.Aggregate where
  /-- The number of its rows. -/
  | len
  /-- The sum of a column that is cast to words with 32 bits. -/
  | sum32 (column : String)
  deriving DecidableEq, Repr

/-- No table has as many rows as this. -/
def Table.maxRows : Nat := twoPow 32 - 1

/-- What a library offers for tables. -/
structure TableLibrary where
  Frame : Type
  /-- What a file holds. -/
  Stored : Type
  /-- A frame of columns side by side. -/
  frame? (columns : List (String × Column)) : Option Frame
  write (format : Format) : Frame → Stored
  /-- Reads some columns of a table that is stored in some files. Others are not looked at. -/
  scan? (format : Format) (wanted : List String) : List Stored → Option Frame
  /-- One row for each value in the column `key`, with that value and the aggregates by name. -/
  groupBy? (key : String) (aggregates : List (String × Aggregate)) : Frame → Option Frame
  sortBy? (key : String) : Frame → Option Frame
  column? (name : String) : Frame → Option (List (Option Value))

namespace TableLibrary

variable (L : TableLibrary)

/-- The frame of some records. -/
def recordsFrame? (records : List Record) : Option L.Frame :=
  L.frame? (columnsOf (records.map Row.ofRecord))

/-- Writes records as a table. -/
def writeRecords? (format : Format) (records : List Record) : Option L.Stored :=
  (L.recordsFrame? records).map (L.write format)

/-- The totals of a table: for each number of kinks its rows and its positive labels, upward. -/
def summarize? (format : Format) (files : List L.Stored) : Option L.Frame := do
  let scanned ← L.scan? format ["kinks", "label"] files
  let grouped ← L.groupBy? "kinks" [("boundaries", .len), ("positives", .sum32 "label")] scanned
  L.sortBy? "kinks" grouped

end TableLibrary

end BoundaryAtlas
