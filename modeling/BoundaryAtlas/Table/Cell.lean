/-!
# Cells

A table in a text is cut into lines at newlines, and a line into cells at commas. A cell that
begins with a quote may hold both between quotes. A line may hold newlines between any two
quotes.
-/

namespace BoundaryAtlas.Table

/-- A cell as it is written, with its quotes. -/
abbrev Cell := List Char

def isQuoted (cell : Cell) : Bool := cell.head? = some '"'

/-- Stands for a character that is not complete. -/
def brokenChar : Char := Char.ofNat 0xfffd

/-- Drops the last byte. A character of more than one byte is not complete without it. -/
def dropLastByte (cs : List Char) : List Char :=
  match cs.getLast? with
  | some c => if c.utf8Size = 1 then cs.dropLast else cs.dropLast ++ [brokenChar]
  | none => []

/-- The cell without its first and last byte, if it begins with a quote. The last byte need not
be a quote. A quote alone stays. -/
def bare (cell : Cell) : List Char :=
  if isQuoted cell ∧ 1 < cell.length then dropLastByte (cell.drop 1) else cell

/-- Two quotes stand for one, and a quote of its own for nothing. -/
def undouble : List Char → List Char
  | '"' :: '"' :: cs => '"' :: undouble cs
  | '"' :: cs => undouble cs
  | c :: cs => c :: undouble cs
  | [] => []

/-- What a cell says. If it begins with a quote its last character has to be another one of one
byte. -/
def textOf? (cell : Cell) : Option (List Char) :=
  if !isQuoted cell then some cell
  else if 1 < cell.length ∧ cell.getLast?.all (·.utf8Size = 1) then some (undouble (bare cell))
  else none

/-- Drops one carriage return at the end. -/
def dropReturn (cs : List Char) : List Char :=
  if cs.getLast? = some '\r' then cs.dropLast else cs

/-! ## Cutting -/

/-- What a cell ends at. -/
inductive Stop where
  | comma
  | newline
  | textEnd
  deriving DecidableEq, Repr

/-- What was cut off the front of a text, where it ended, and what is left. -/
structure Cut (β : Type) where
  front : β
  stop : Stop
  rest : List Char

/-- Goes on with a cell, of which `found` is known, with the last character first. Between
quotes nothing ends a cell that began with one. -/
def cutCellFrom (quoted inside : Bool) (found : List Char) : List Char → Cut Cell
  | [] => ⟨found.reverse, .textEnd, []⟩
  | c :: cs =>
    if c = ',' ∧ !inside then ⟨found.reverse, .comma, cs⟩
    else if c = '\n' ∧ !inside then ⟨found.reverse, .newline, cs⟩
    else cutCellFrom quoted (inside != (quoted && c = '"')) (c :: found) cs

def cutCell (cs : List Char) : Cut Cell := cutCellFrom (isQuoted cs) false [] cs

/-- The cells at the front of a line, at most `width` of them. -/
def cutCells : (width : Nat) → List Char → Cut (List Cell)
  | 0, cs => ⟨[], .comma, cs⟩
  | width + 1, cs =>
    let cut := cutCell cs
    if width = 0 ∨ cut.stop ≠ .comma then ⟨[cut.front], cut.stop, cut.rest⟩
    else
      let more := cutCells width cut.rest
      ⟨cut.front :: more.front, more.stop, more.rest⟩

/-- Goes on with a line. Newlines between two quotes belong to it. -/
def cutLineFrom (inside : Bool) (found : List Char) : List Char → List Char × List Char
  | [] => (found.reverse, [])
  | c :: cs =>
    if c = '\n' ∧ !inside then (found.reverse, cs)
    else cutLineFrom (inside != (c = '"')) (c :: found) cs

/-- The first line, and what follows it. -/
def cutLine (cs : List Char) : List Char × List Char := cutLineFrom false [] cs

/-! ## What is left is shorter -/

theorem length_rest_cutCellFrom (quoted inside : Bool) (found cs : List Char) :
    (cutCellFrom quoted inside found cs).rest.length ≤ cs.length - 1 := by
  induction cs generalizing inside found with
  | nil => simp [cutCellFrom]
  | cons c cs ih =>
    simp only [cutCellFrom]
    split
    · simp
    · split
      · simp
      · exact Nat.le_trans (ih _ _) (by simp)

theorem length_rest_cutCells (width : Nat) (cs : List Char) :
    (cutCells (width + 1) cs).rest.length ≤ cs.length - 1 := by
  induction width generalizing cs with
  | zero => simpa [cutCells, cutCell] using length_rest_cutCellFrom (isQuoted cs) false [] cs
  | succ width ih =>
    have h := length_rest_cutCellFrom (isQuoted cs) false [] cs
    rw [cutCells]
    split
    · exact h
    · exact Nat.le_trans (ih _) (Nat.le_trans (Nat.sub_le _ _) h)

theorem length_rest_cutLineFrom (inside : Bool) (found cs : List Char) :
    (cutLineFrom inside found cs).2.length ≤ cs.length - 1 := by
  induction cs generalizing inside found with
  | nil => simp [cutLineFrom]
  | cons c cs ih =>
    simp only [cutLineFrom]
    split
    · simp
    · exact Nat.le_trans (ih _ _) (by simp)

theorem length_rest_cutLine (cs : List Char) : (cutLine cs).2.length ≤ cs.length - 1 :=
  length_rest_cutLineFrom false [] cs

end BoundaryAtlas.Table
