import BoundaryAtlas.Json.Fields
import BoundaryAtlas.Json.Printer
import BoundaryAtlas.Json.Reader

/-!
# JSON libraries

A library turns numbers, lists and structures into values of its own, writes values as text, and
reads them again. The shapes of this project are given for any library.
-/

namespace BoundaryAtlas

/-- What a library offers for writing and reading. -/
structure JsonLibrary where
  Value : Type
  null : Value
  bool : Bool → Value
  nat : Nat → Value
  float : Float → Value
  list : List Value → Value
  /-- A structure, with its fields in their order. -/
  record : List (String × Value) → Value
  /-- A map with numbers for keys, in its order. -/
  numbered : List (Nat × Value) → Value
  isNull : Value → Bool
  bool? : Value → Option Bool
  /-- A whole number below `2 ^ bits`. -/
  word? (bits : Nat) : Value → Option Nat
  float? : Value → Option Float
  list? : Value → Option (List Value)
  /-- The values of the named fields, where they are present. If `strict`, there are no others. -/
  fields? (strict : Bool) (names : List String) : Value → Option (List (Option Value))
  numbered? : Value → Option (List (Nat × Value))
  write : Json.Style → Value → String
  read? : String → Option Value

namespace JsonLibrary

variable (J : JsonLibrary) {β γ : Type}

def option (write : β → J.Value) : Option β → J.Value
  | some value => write value
  | none => J.null

/-- A pair of floats is a list of two. -/
def pair (x y : Float) : J.Value := J.list [J.float x, J.float y]

/-- A field that has to be there. -/
def required (read : J.Value → Option β) (field : Option J.Value) : Option β := field.bind read

/-- A field that may be absent or null. -/
def optional (read : J.Value → Option β) : Option J.Value → Option (Option β)
  | none => some none
  | some v => if J.isNull v then some none else (read v).map some

/-- A list of exactly two values. -/
def pair? (first : J.Value → Option β) (second : J.Value → Option γ) (v : J.Value) :
    Option (β × γ) :=
  match J.list? v with
  | some [a, b] => do return (← first a, ← second b)
  | _ => none

/-- A list of values of one sort. -/
def listOf? (read : J.Value → Option β) (v : J.Value) : Option (List β) := do
  (← J.list? v).mapM read

/-- A map from numbers to values of one sort. -/
def numberedOf? (read : J.Value → Option β) (v : J.Value) : Option (List (Nat × β)) := do
  (← J.numbered? v).mapM fun x => do return (x.1, ← read x.2)

end JsonLibrary

/-- JSON as it is written and read here. -/
@[reducible] def Json.library : JsonLibrary where
  Value := Json
  null := .null
  bool := .bool
  nat := ofNat
  float := ofFloat
  list := .list
  record fields := .object (fields.map fun x => (.plain x.1, x.2))
  numbered entries := .object (entries.map fun x => (.plain (toString x.1), x.2))
  isNull := isNull
  bool? := bool?
  word? := word?
  float? := float?
  list? := list?
  fields? := fields?
  numbered? := numbered?
  write style j := String.ofList (chars style 0 j)
  read? := ofString?

end BoundaryAtlas
