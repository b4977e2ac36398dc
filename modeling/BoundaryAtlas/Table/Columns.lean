import BoundaryAtlas.Json.Library
import BoundaryAtlas.Table.Basic

/-!
# Tables in columns

A table in columns is kept on disk as one JSON list for each column. All lists are of one
length.
-/

namespace BoundaryAtlas.Table

open Json

/-- The columns of a table. -/
def columnsJson (rows : List Row) : Json :=
  .object [("kinks", .list (rows.map fun r => ofNat r.kinks)),
    ("label", .list (rows.map fun r => .bool r.label)),
    ("boundary", .list (rows.map fun r => .text r.boundary))]

/-- The rows that stand side by side in three columns. -/
def sideBySide? : List Nat → List Bool → List String → Option (List Row)
  | [], [], [] => some []
  | kinks :: ks, label :: ls, boundary :: bs =>
    (sideBySide? ks ls bs).map (⟨kinks, label, boundary⟩ :: ·)
  | _, _, _ => none

/-- The rows of a table in columns. -/
def ofColumnsJson? (j : Json) : Option (List Row) :=
  match fields? true ["kinks", "label", "boundary"] j with
  | some [kinks, labels, boundaries] => do
    sideBySide? (← library.required (library.listOf? (word? 32)) kinks)
      (← library.required (library.listOf? bool?) labels)
      (← library.required (library.listOf? text?) boundaries)
  | _ => none

end BoundaryAtlas.Table
