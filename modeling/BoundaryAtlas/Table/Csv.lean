import BoundaryAtlas.Decimal.Layout
import BoundaryAtlas.Table.Basic
import BoundaryAtlas.Table.Cell

/-!
# Tables as text

Cells are separated by commas and rows by newlines, and the first row names the columns. An
empty cell without quotes has no value.
-/

namespace BoundaryAtlas.Table

/-! ## Writing -/

/-- An empty text is quoted, so that it is not taken for a missing value. -/
def textCell (s : String) : List Char := if s.isEmpty then ['"', '"'] else s.toList

def boolCell (b : Bool) : List Char := if b then "true".toList else "false".toList

def Row.line (r : Row) : List Char :=
  Decimal.digitChars r.kinks ++ ',' :: boolCell r.label ++ ',' :: textCell r.boundary ++ ['\n']

def header : List Char := "kinks,label,boundary\n".toList

/-- The text of a table. -/
def csv (rows : List Row) : List Char := header ++ rows.flatMap Row.line

/-! ## Reading -/

/-- A text, divided into its first line and its rows. -/
structure Sheet where
  /-- The names in the first line, which may repeat. -/
  header : List (List Char)
  body : List Char
  deriving DecidableEq, Repr

/-- The cells at the front of a line. A carriage return at the end is dropped, unless it is
all there is. -/
def lineCells (width : Nat) (line : List Char) : List Cell :=
  (cutCells width (if 1 < line.length then dropReturn line else line)).front

def byteOrderMark : Char := Char.ofNat 0xfeff

/-- Drops a byte order mark and the line ends in front of the first line. -/
def skipToHeader (cs : List Char) : List Char :=
  (if cs.head? = some byteOrderMark then cs.drop 1 else cs).dropWhile
    fun c => c = '\n' || c = '\r'

/-- A text without any line is no table. -/
def Sheet.ofText? (cs : List Char) : Option Sheet :=
  match skipToHeader cs with
  | [] => none
  | cs =>
    let (line, body) := cutLine cs
    some ⟨(lineCells (line.length + 1) line).map bare, body⟩

/-- Numbers the repetitions of names, where `seen` are the names in front. -/
def numberRepeated (seen : List (List Char)) : List (List Char) → List (List Char)
  | [] => []
  | name :: names =>
    let numbered := match seen.count name with
      | 0 => name
      | n + 1 => name ++ "_duplicated_".toList ++ Decimal.digitChars n
    numbered :: numberRepeated (name :: seen) names

/-- The names of the columns. Names that are alike after numbering share a column. -/
def Sheet.columns (s : Sheet) : List (List Char) := (numberRepeated [] s.header).eraseDups

/-! ## Rows -/

/-- The cells at the front of a row. -/
structure RowFront where
  cells : List Cell
  /-- More text follows the comma behind the last cell. -/
  goesOn : Bool
  deriving DecidableEq, Repr

/-- The first `width + 1` cells of all rows. The line that a row is left in is skipped. -/
def rowFronts (width : Nat) (cs : List Char) : List RowFront :=
  if cs = [] then []
  else
    let cut := cutCells (width + 1) cs
    if cut.stop = .comma then
      ⟨cut.front.map dropReturn, cut.rest ≠ []⟩ :: rowFronts width (cutLine cut.rest).2
    else ⟨cut.front.map dropReturn, false⟩ :: rowFronts width cut.rest
termination_by cs.length
decreasing_by
  all_goals
    have : 0 < cs.length := List.length_pos_iff.2 ‹_›
    have := length_rest_cutCells width cs
    have := length_rest_cutLine (cutCells (width + 1) cs).rest
    omega

/-- The first lines, at most `count` of them. -/
def firstLines : (count : Nat) → List Char → List (List Char)
  | 0, _ => []
  | _, [] => []
  | count + 1, cs => (cutLine cs).1 :: firstLines count (cutLine cs).2

end BoundaryAtlas.Table
