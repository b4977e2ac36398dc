import BoundaryAtlas.Json.Basic

/-!
# Reading JSON

A reader takes a value from the front of a text and answers with what is left. Blanks are the
space, the tab and the two line ends. Nothing but blanks may follow the value of a document.
-/

namespace BoundaryAtlas.Json

def isBlank (c : Char) : Bool := c = ' ' || c = '\t' || c = '\n' || c = '\r'

def skipBlanks (cs : List Char) : List Char := cs.dropWhile isBlank

/-! ## Numbers -/

/-- One digit or more, and what is left. -/
def takeDigits (cs : List Char) : Option (List Char × List Char) :=
  match cs.takeWhile Char.isDigit with
  | [] => none
  | digits => some (digits, cs.dropWhile Char.isDigit)

/-- The digits before the point. Only zero itself begins with a zero. -/
def takeWhole (cs : List Char) : Option (List Char × List Char) :=
  match takeDigits cs with
  | some ('0' :: _ :: _, _) => none
  | found => found

/-- The point and the digits after it, if there is a point. -/
def takeFraction : List Char → Option (List Char × List Char)
  | '.' :: cs => (takeDigits cs).map fun (ds, rest) => ('.' :: ds, rest)
  | cs => some ([], cs)

def takeSign : List Char → List Char × List Char
  | '+' :: cs => (['+'], cs)
  | '-' :: cs => (['-'], cs)
  | cs => ([], cs)

/-- The exponent, if there is one. -/
def takeExponent : List Char → Option (List Char × List Char)
  | c :: cs =>
    if c = 'e' ∨ c = 'E' then
      let (sign, cs) := takeSign cs
      (takeDigits cs).map fun (ds, rest) => (c :: sign ++ ds, rest)
    else some ([], c :: cs)
  | [] => some ([], [])

/-- A number without sign. -/
def takeMagnitude (cs : List Char) : Option (List Char × List Char) := do
  let (whole, cs) ← takeWhole cs
  let (fraction, cs) ← takeFraction cs
  let (exponent, cs) ← takeExponent cs
  return (whole ++ fraction ++ exponent, cs)

/-- A number in its spelling. -/
def takeNumber : List Char → Option (List Char × List Char)
  | '-' :: cs => (takeMagnitude cs).map fun (spelling, rest) => ('-' :: spelling, rest)
  | cs => takeMagnitude cs

/-! ## Strings -/

def hexValue? (c : Char) : Option Nat :=
  if '0' ≤ c ∧ c ≤ '9' then some (c.toNat - '0'.toNat)
  else if 'a' ≤ c ∧ c ≤ 'f' then some (c.toNat - 'a'.toNat + 10)
  else if 'A' ≤ c ∧ c ≤ 'F' then some (c.toNat - 'A'.toNat + 10)
  else none

def hexValue4? (a b c d : Char) : Option Nat := do
  return (← hexValue? a) * 4096 + (← hexValue? b) * 256 + (← hexValue? c) * 16 + (← hexValue? d)

def isHighHalf (n : Nat) : Bool := 0xd800 ≤ n && n < 0xdc00
def isLowHalf (n : Nat) : Bool := 0xdc00 ≤ n && n < 0xe000

/-- The character that two halves make. -/
def joinHalves (high low : Nat) : Char :=
  Char.ofNat (0x10000 + (high - 0xd800) * 0x400 + (low - 0xdc00))

/-- The character after a backslash, for escapes of one character. -/
def simpleEscape? (c : Char) : Option Char :=
  match c with
  | '"' => some '"'
  | '\\' => some '\\'
  | '/' => some '/'
  | 'b' => some (Char.ofNat 0x8)
  | 'f' => some (Char.ofNat 0xc)
  | 'n' => some '\n'
  | 'r' => some '\r'
  | 't' => some '\t'
  | _ => none

/-- The characters up to the closing quote, with the last one first. `none` stands for half a
character. -/
def takeString (found : List (Option Char)) : List Char →
    Option (List (Option Char) × List Char)
  | [] => none
  | '"' :: cs => some (found, cs)
  | '\\' :: 'u' :: a :: b :: c :: d :: '\\' :: 'u' :: e :: f :: g :: h :: cs =>
    match hexValue4? a b c d with
    | none => none
    | some first =>
      if isHighHalf first then
        match hexValue4? e f g h with
        | none => none
        | some second =>
          if isLowHalf second then takeString (some (joinHalves first second) :: found) cs
          else takeString (none :: found) ('\\' :: 'u' :: e :: f :: g :: h :: cs)
      else
        takeString ((if isLowHalf first then none else some (Char.ofNat first)) :: found)
          ('\\' :: 'u' :: e :: f :: g :: h :: cs)
  | '\\' :: 'u' :: a :: b :: c :: d :: cs =>
    match hexValue4? a b c d with
    | none => none
    | some code =>
      takeString
        ((if isHighHalf code || isLowHalf code then none else some (Char.ofNat code)) :: found) cs
  | '\\' :: c :: cs =>
    match simpleEscape? c with
    | some c => takeString (some c :: found) cs
    | none => none
  | c :: cs => if c = '\\' ∨ c.toNat < 0x20 then none else takeString (some c :: found) cs

/-- The text of the characters, unless one of them is half a character. -/
def textOf (found : List (Option Char)) : Option String :=
  (found.reverse.mapM id).map String.ofList

/-! ## Values -/

/-- What is left after a fixed word. -/
def takeWord (word cs : List Char) : Option (List Char) :=
  if word.isPrefixOf cs then some (cs.drop word.length) else none

/-- Whether there is a backslash before the next quote. -/
def hasEscape (cs : List Char) : Bool := (cs.takeWhile (· ≠ '"')).contains '\\'

/-- The name behind a quote, where `found` are its characters. -/
def nameOf (cs : List Char) (found : List (Option Char)) : FieldName :=
  if hasEscape cs then .escaped (textOf found) else .plain ((textOf found).getD "")

/-- The name of a field and its colon. -/
def takeName (cs : List Char) : Option (FieldName × List Char) :=
  match skipBlanks cs with
  | '"' :: cs =>
    match takeString [] cs with
    | some (found, rest) =>
      match skipBlanks rest with
      | ':' :: rest => some (nameOf cs found, rest)
      | _ => none
    | none => none
  | _ => none

mutual

/-- A value. The fuel bounds the number of nested calls. -/
def takeValue : (fuel : Nat) → List Char → Option (Json × List Char)
  | 0, _ => none
  | fuel + 1, cs =>
    match skipBlanks cs with
    | [] => none
    | '"' :: cs =>
      (takeString [] cs).map fun (found, cs) =>
        (match textOf found with
          | some value => .text value
          | none => .badText, cs)
    | '[' :: cs =>
      match skipBlanks cs with
      | ']' :: cs => some (.list [], cs)
      | cs => (takeItems fuel cs).map fun (items, cs) => (.list items, cs)
    | '{' :: cs =>
      match skipBlanks cs with
      | '}' :: cs => some (.object [], cs)
      | cs => (takeFields fuel cs).map fun (fields, cs) => (.object fields, cs)
    | 'n' :: cs => (takeWord ['u', 'l', 'l'] cs).map fun cs => (.null, cs)
    | 't' :: cs => (takeWord ['r', 'u', 'e'] cs).map fun cs => (.bool true, cs)
    | 'f' :: cs => (takeWord ['a', 'l', 's', 'e'] cs).map fun cs => (.bool false, cs)
    | cs => (takeNumber cs).map fun (spelling, cs) => (.number spelling, cs)

/-- Items up to the closing bracket, at least one. -/
def takeItems : (fuel : Nat) → List Char → Option (List Json × List Char)
  | 0, _ => none
  | fuel + 1, cs =>
    match takeValue fuel cs with
    | none => none
    | some (item, cs) =>
      match skipBlanks cs with
      | ',' :: cs => (takeItems fuel cs).map fun (items, cs) => (item :: items, cs)
      | ']' :: cs => some ([item], cs)
      | _ => none

/-- Fields up to the closing brace, at least one. -/
def takeFields : (fuel : Nat) → List Char → Option (List (FieldName × Json) × List Char)
  | 0, _ => none
  | fuel + 1, cs =>
    match takeName cs with
    | none => none
    | some (name, cs) =>
      match takeValue fuel cs with
      | none => none
      | some (value, cs) =>
        match skipBlanks cs with
        | ',' :: cs => (takeFields fuel cs).map fun (fields, cs) => ((name, value) :: fields, cs)
        | '}' :: cs => some ([(name, value)], cs)
        | _ => none

end

/-- The value of a whole text. -/
def ofChars? (cs : List Char) : Option Json :=
  match takeValue (2 * cs.length + 1) cs with
  | some (j, rest) => if (skipBlanks rest).isEmpty then some j else none
  | none => none

def ofString? (s : String) : Option Json := ofChars? s.toList

end BoundaryAtlas.Json
