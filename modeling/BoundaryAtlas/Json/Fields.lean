import BoundaryAtlas.Json.Basic

/-!
# Reading structures

A structure is an object with named fields, or a list of all its values in their order. A
name may not come twice, and every name has a text. Names that are not asked for are skipped,
or refused if the reader is strict.
-/

namespace BoundaryAtlas.Json

/-- The values of the named fields, where they are present. -/
def fields? (strict : Bool) (names : List String) : Json → Option (List (Option Json))
  | .object fields =>
    if fields.any (fun field => field.1.text?.all fun name => strict && !names.contains name) then
      none
    else if names.any (fun name => 1 < fields.countP (·.1.text? = some name)) then none
    else some (names.map fun name => lookup? name fields)
  | .list items => if items.length = names.length then some (items.map some) else none
  | _ => none

/-- A whole number below `2 ^ bits`. -/
def word? (bits : Nat) (j : Json) : Option Nat :=
  match j.nat? with
  | some n => if n < twoPow bits then some n else none
  | none => none

/-- A name that is a number below `2 ^ 64`, in digits without leading zeros. -/
def numberName? : FieldName → Option Nat
  | .plain name => do
    let cs := name.toList
    let n ← word? 64 (.number cs)
    if cs = Decimal.digitChars n then return n else none
  | .escaped _ => none

/-- The values of an object whose names are numbers. -/
def numbered? : Json → Option (List (Nat × Json))
  | .object fields => fields.mapM fun (name, value) => do return (← numberName? name, value)
  | _ => none

end BoundaryAtlas.Json
