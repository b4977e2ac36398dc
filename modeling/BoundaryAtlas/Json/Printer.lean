import BoundaryAtlas.Json.Basic

/-!
# Writing JSON

Text is written in one line, or with two spaces for each level.
-/

namespace BoundaryAtlas.Json

/-! ## Strings -/

def hexDigit (n : Nat) : Char := (Nat.toDigits 16 n).headD '0'

/-- Quotes, backslashes and control characters are escaped, and all else stands for itself. -/
def escaped (c : Char) : List Char :=
  if c = '"' then ['\\', '"']
  else if c = '\\' then ['\\', '\\']
  else if c.toNat = 0x8 then ['\\', 'b']
  else if c.toNat = 0x9 then ['\\', 't']
  else if c.toNat = 0xa then ['\\', 'n']
  else if c.toNat = 0xc then ['\\', 'f']
  else if c.toNat = 0xd then ['\\', 'r']
  else if c.toNat < 0x20 then
    ['\\', 'u', '0', '0', hexDigit (c.toNat / 16), hexDigit (c.toNat % 16)]
  else [c]

def quoted (s : String) : List Char := '"' :: s.toList.flatMap escaped ++ ['"']

def nameChars (name : FieldName) : List Char := quoted (name.text?.getD "")

/-! ## Values -/

/-- How values are spread over lines. -/
inductive Style where
  | compact
  | pretty
  deriving DecidableEq, Repr

/-- What stands before an item at a depth. -/
def Style.gap : Style → (depth : Nat) → List Char
  | .compact, _ => []
  | .pretty, depth => '\n' :: List.replicate (2 * depth) ' '

def Style.colon : Style → List Char
  | .compact => [':']
  | .pretty => [':', ' ']

mutual

/-- The text of a value at a depth. -/
def chars (style : Style) (depth : Nat) : Json → List Char
  | .null => ['n', 'u', 'l', 'l']
  | .bool true => ['t', 'r', 'u', 'e']
  | .bool false => ['f', 'a', 'l', 's', 'e']
  | .number spelling => spelling
  | .text value => quoted value
  | .badText => ['"', '"']
  | .list [] => ['[', ']']
  | .list (item :: items) =>
    '[' :: style.gap (depth + 1) ++ chars style (depth + 1) item ++
      itemsChars style depth items ++ [']']
  | .object [] => ['{', '}']
  | .object ((name, value) :: fields) =>
    '{' :: style.gap (depth + 1) ++ nameChars name ++ style.colon ++ chars style (depth + 1) value ++
      fieldsChars style depth fields ++ ['}']

/-- The items of a list after the first one. -/
def itemsChars (style : Style) (depth : Nat) : List Json → List Char
  | [] => style.gap depth
  | item :: items =>
    ',' :: style.gap (depth + 1) ++ chars style (depth + 1) item ++ itemsChars style depth items

/-- The fields of an object after the first one. -/
def fieldsChars (style : Style) (depth : Nat) : List (FieldName × Json) → List Char
  | [] => style.gap depth
  | (name, value) :: fields =>
    ',' :: style.gap (depth + 1) ++ nameChars name ++ style.colon ++ chars style (depth + 1) value ++
      fieldsChars style depth fields

end

def compact (j : Json) : String := String.ofList (chars .compact 0 j)
def pretty (j : Json) : String := String.ofList (chars .pretty 0 j)

/-! ## Sorted fields -/

/-- Names are sorted by their texts. -/
def nameBefore (a b : FieldName) : Bool := a.text?.getD "" < b.text?.getD ""

/-- Puts a field among sorted ones. -/
def insertField (field : FieldName × Json) : List (FieldName × Json) → List (FieldName × Json)
  | [] => [field]
  | other :: fields =>
    if nameBefore field.1 other.1 then field :: other :: fields else other :: insertField field fields

mutual

/-- The same value with the fields of every object in the order of their names. -/
def sorted : Json → Json
  | .list items => .list (sortedItems items)
  | .object fields => .object (sortedFields fields)
  | j => j

def sortedItems : List Json → List Json
  | [] => []
  | item :: items => sorted item :: sortedItems items

def sortedFields : List (FieldName × Json) → List (FieldName × Json)
  | [] => []
  | (name, value) :: fields => insertField (name, sorted value) (sortedFields fields)

end

end BoundaryAtlas.Json
