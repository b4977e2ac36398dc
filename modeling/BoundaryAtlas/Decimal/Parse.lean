import BoundaryAtlas.Decimal.Reading

/-!
# Numbers on a command line

A float has an optional sign and digits on at least one side of the point, or is a word for
an infinite or undefined value, in letters of any case. A whole number has an optional sign.
-/

namespace BoundaryAtlas.Decimal

/-- A sign in front, and what is left. -/
def cutSign : List Char → Bool × List Char
  | '-' :: cs => (true, cs)
  | '+' :: cs => (false, cs)
  | cs => (false, cs)

/-- A number in digits only. -/
def parseDigits? (cs : List Char) : Option Nat :=
  if cs ≠ [] ∧ cs.all Char.isDigit then some (Nat.ofDigitChars 10 cs 0) else none

/-- The exponent after the digits: nothing, or a letter, an optional sign and digits. -/
def parseExponent? : List Char → Option Int
  | [] => some 0
  | c :: cs =>
    if c = 'e' ∨ c = 'E' then
      let (negative, ds) := cutSign cs
      (parseDigits? ds).map fun n => if negative then -(n : Int) else n
    else none

/-- A decimal without sign. -/
def parseMagnitude? (cs : List Char) : Option Float :=
  let whole := cs.takeWhile Char.isDigit
  let rest := cs.dropWhile Char.isDigit
  let (fraction, rest) := match rest with
    | '.' :: rest => (rest.takeWhile Char.isDigit, rest.dropWhile Char.isDigit)
    | rest => ([], rest)
  if whole = [] ∧ fraction = [] then none
  else
    (parseExponent? rest).map fun exponent =>
      (⟨Nat.ofDigitChars 10 whole 0, Nat.ofDigitChars 10 fraction 0, fraction.length, exponent⟩ :
        Numeral).toFloat

/-- A float in any spelling. -/
def parseFloat? (s : String) : Option Float :=
  let (negative, cs) := cutSign s.toList
  let word := String.ofList (cs.map Char.toLower)
  if word = "nan" then some (0.0 / 0.0)
  else if word = "inf" ∨ word = "infinity" then some (signed negative (1.0 / 0.0))
  else (parseMagnitude? cs).map (signed negative)

/-- A number below `2 ^ bits`. Only a plus may stand in front, or a minus before zero if
`minusZero` says so. -/
def parseWord? (bits : Nat) (minusZero : Bool) (s : String) : Option Nat :=
  let (negative, cs) := cutSign s.toList
  match parseDigits? cs with
  | some n =>
    if twoPow bits ≤ n then none
    else if negative && !(minusZero && n == 0) then none
    else some n
  | none => none

end BoundaryAtlas.Decimal
