import BoundaryAtlas.Decimal.Layout
import BoundaryAtlas.Decimal.Reading

/-!
# JSON values

A number is kept as it is written, because a whole number and a number with a point are read
by different rules. Fields are kept in their order, and a name may come twice. A name that is
written with escapes is told apart, because it cannot be read as a number.
-/

namespace BoundaryAtlas

/-- The name of a field. -/
inductive FieldName where
  /-- A name without escapes. -/
  | plain (text : String)
  /-- A name with escapes. If one of them names half a character, the name has no text. -/
  | escaped (text? : Option String)
  deriving DecidableEq, Repr, Inhabited

instance : Coe String FieldName := ⟨.plain⟩

def FieldName.text? : FieldName → Option String
  | .plain text => some text
  | .escaped text? => text?

/-- A JSON value. -/
inductive Json where
  | null
  | bool (value : Bool)
  /-- A number in its own spelling. -/
  | number (spelling : List Char)
  | text (value : String)
  /-- A string whose escapes name half a character, so that it has no text. -/
  | badText
  | list (items : List Json)
  | object (fields : List (FieldName × Json))
  deriving Repr, Inhabited

namespace Json

def ofNat (n : Nat) : Json := .number (Decimal.digitChars n)

/-- A finite float is a number, and anything else is `null`. -/
def ofFloat (x : Float) : Json :=
  if x.isFinite then .number (Decimal.json.finite x) else .null

def ofOption {β : Type} (f : β → Json) : Option β → Json
  | some value => f value
  | none => .null

/-! ## Numbers -/

def digitsOf (cs : List Char) : Nat := Nat.ofDigitChars 10 cs 0

/-- The number without sign, split into its digits and its exponent. -/
def numeral (cs : List Char) : Decimal.Numeral :=
  let whole := cs.takeWhile Char.isDigit
  let rest := cs.dropWhile Char.isDigit
  let (fraction, rest) := match rest with
    | '.' :: rest => (rest.takeWhile Char.isDigit, rest.dropWhile Char.isDigit)
    | rest => ([], rest)
  let exponent : Int := match rest with
    | _ :: '-' :: ds => -(digitsOf ds : Int)
    | _ :: '+' :: ds => digitsOf ds
    | _ :: ds => digitsOf ds
    | [] => 0
  ⟨digitsOf whole, digitsOf fraction, fraction.length, exponent⟩

/-- The float nearest to a number. -/
def spelledFloat : List Char → Float
  | '-' :: cs => Decimal.signed true (numeral cs).toFloat
  | cs => (numeral cs).toFloat

/-- A number without sign, point and exponent. -/
def nat? : Json → Option Nat
  | .number cs => if cs.all Char.isDigit then some (digitsOf cs) else none
  | _ => none

/-- A number that is not too large for a float. -/
def float? : Json → Option Float
  | .number cs =>
    let x := spelledFloat cs
    if x.isFinite then some x else none
  | _ => none

def isNull : Json → Bool
  | .null => true
  | _ => false

def bool? : Json → Option Bool
  | .bool value => some value
  | _ => none

def text? : Json → Option String
  | .text value => some value
  | _ => none

def list? : Json → Option (List Json)
  | .list items => some items
  | _ => none

/-- The first field with a name. -/
def lookup? (name : String) (fields : List (FieldName × Json)) : Option Json :=
  (fields.find? fun field => field.1.text? = some name).map (·.2)

/-- The field with a name, if the value is an object that has it. -/
def field? (name : String) : Json → Option Json
  | .object fields => lookup? name fields
  | _ => none

end Json

end BoundaryAtlas
