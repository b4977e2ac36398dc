import BoundaryAtlas.Decimal.Layout
import BoundaryAtlas.Decimal.Parse
import BoundaryAtlas.Table.Cell
import BoundaryAtlas.Text.Digit

/-!
# Values of a table

All values of a column are of one kind. The kind is found from the look of some of its cells,
and then every cell has to be readable as a value of that kind.
-/

namespace BoundaryAtlas.Table

/-- What a column holds. -/
inductive Kind where
  | integer
  | float
  | bool
  | text
  deriving DecidableEq, Repr

/-- What a cell holds. -/
inductive Value where
  | integer (n : Int)
  | float (x : Float)
  | bool (b : Bool)
  | text (cs : List Char)
  deriving DecidableEq, Repr

/-! ## The look of a cell -/

def areDigits (cs : List Char) : Bool := cs ≠ [] && cs.all Text.isDecimalDigit

/-- The letter `e`, an optional sign and digits. -/
def looksExponent : List Char → Bool
  | c :: cs => (c = 'e' || c = 'E') && areDigits (Decimal.cutSign cs).2
  | [] => false

/-- A number with a point or an exponent or both, or one of two words. -/
def looksFloat (cs : List Char) : Bool :=
  let cs := (Decimal.cutSign cs).2
  let whole := cs.takeWhile Text.isDecimalDigit
  cs = "inf".toList || cs = "NaN".toList ||
    match cs.dropWhile Text.isDecimalDigit with
    | '.' :: rest =>
      let rest' := rest.dropWhile Text.isDecimalDigit
      if rest.takeWhile Text.isDecimalDigit = [] then whole ≠ [] && rest' = []
      else rest' = [] || looksExponent rest'
    | rest => whole ≠ [] && looksExponent rest

/-- Digits with an optional minus sign. -/
def looksInteger : List Char → Bool
  | '-' :: cs => areDigits cs
  | cs => areDigits cs

/-- A letter without its case. The long s is an s. -/
def foldCase (c : Char) : Char := if c = Char.ofNat 0x17f then 's' else c.toLower

/-- A truth value, in letters of any case. -/
def looksTruth (cs : List Char) : Bool :=
  let word := cs.map foldCase
  word = "true".toList || word = "false".toList

/-- The truth value that is read. Here the long s is no letter of the words. -/
def truth? (cs : List Char) : Option Bool :=
  let word := cs.map Char.toLower
  if word = "true".toList then some true
  else if word = "false".toList then some false
  else none

/-- The kind that a cell looks like. A missing value looks like nothing. -/
def Kind.ofCell? (cell : Cell) : Option Kind :=
  let cs := bare cell
  if cell = [] then none
  else if looksTruth cs then some .bool
  else if looksFloat cs then some .float
  else if looksInteger cs then some .integer
  else some .text

/-- The kind of a column. Integers may stand among floats. All else that is mixed is text, and
so is a column without any value. -/
def Kind.common (kinds : List Kind) : Kind :=
  match kinds.eraseDups with
  | [kind] => kind
  | [.integer, .float] | [.float, .integer] => .float
  | _ => .text

/-- The kind that holds the values of two kinds. -/
def Kind.join : Kind → Kind → Kind
  | .text, _ | _, .text => .text
  | .float, _ | _, .float => .float
  | .integer, _ | _, .integer => .integer
  | .bool, .bool => .bool

/-- The kind of a column that stands in several files. -/
def Kind.joinAll (kinds : List Kind) : Kind := kinds.foldr Kind.join .bool

/-! ## Reading a cell -/

/-- The range of signed numbers with 64 bits. -/
def isWord (n : Int) : Bool := -(twoPow 63 : Int) ≤ n && n < twoPow 63

/-- Digits with an optional sign, in the range of words. -/
def integer? (cs : List Char) : Option Int :=
  let (negative, ds) := Decimal.cutSign cs
  (Decimal.parseDigits? ds).bind fun n =>
    let i : Int := if negative then -n else n
    if isWord i then some i else none

/-- Reads what is left without blanks in front. If nothing is left the value is missing. -/
def unlessBlank (cell : Cell) (read? : List Char → Option Value) : Option (Option Value) :=
  match (bare cell).dropWhile fun c => c = ' ' || c = '\t' with
  | [] => some none
  | cs => (read? cs).map some

/-- The value of a cell, which may be missing. -/
def Kind.read? (kind : Kind) (cell : Cell) : Option (Option Value) :=
  match kind with
  | .integer => unlessBlank cell fun cs => (integer? cs).map .integer
  | .float => unlessBlank cell fun cs => (Decimal.parseFloat? (String.ofList cs)).map .float
  | .bool => if bare cell = [] then some none else (truth? (bare cell)).map fun b => some (.bool b)
  | .text => if cell = [] then some none else (textOf? cell).map fun cs => some (.text cs)

/-! ## Values -/

namespace Value

/-- Kinds do not meet in one column. If they did, they would stand in this order. -/
def rank : Value → Nat
  | .integer _ => 0
  | .float _ => 1
  | .bool _ => 2
  | .text _ => 3

/-- The order of values. An undefined float comes after all others. -/
def before : Value → Value → Bool
  | .integer a, .integer b => a < b
  | .float a, .float b => a < b || (!a.isNaN && b.isNaN)
  | .bool a, .bool b => !a && b
  | .text a, .text b => a < b
  | a, b => a.rank < b.rank

/-- A float without the digits behind its point. -/
def truncate? (x : Float) : Option Int :=
  if -9223372036854775808.0 ≤ x ∧ x < 9223372036854775808.0 then some x.toInt64.toInt else none

/-- The value as a number of 64 bits. A text counts if it is such a number. -/
def number? : Value → Option Int
  | .integer n => some n
  | .float x => truncate? x
  | .bool b => some (if b then 1 else 0)
  | .text cs => integer? cs

/-- The value as a number of 32 bits, or zero if it is none. -/
def weight (v : Value) : Nat :=
  match v.number? with
  | some (.ofNat n) => if n < twoPow 32 then n else 0
  | _ => 0

def toText : Value → String
  | .integer n => toString n
  | .float x => Decimal.plainText x
  | .bool b => if b then "true" else "false"
  | .text cs => String.ofList cs

end Value

end BoundaryAtlas.Table
