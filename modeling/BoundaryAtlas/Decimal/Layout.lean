import BoundaryAtlas.Decimal.Shortest

/-!
# How a float is written

A layout says when digits are written in place, and how an exponent is written. There are
two: `plain` for messages, and `json` for documents.
-/

namespace BoundaryAtlas.Decimal

/-- The decisions of one way to write floats. -/
structure Layout where
  /-- The decimal exponents of the first digit that are written without an exponent. -/
  positional : Int → Bool
  /-- A number without decimal places ends in `.0`. -/
  pointZero : Bool
  tie : Tie

/-- Messages never show an exponent, and whole numbers have no point. -/
def plain : Layout := ⟨fun _ => true, false, .up⟩

/-- Documents show an exponent below `10 ^ -5` and from `10 ^ 16` on. -/
def json : Layout := ⟨fun e => -5 ≤ e && e < 16, true, .toEven⟩

def digitChars (n : Nat) : List Char := Nat.toDigits 10 n

/-- The digits in place, with zeros where the point is away from them. -/
def positionalText (digits : List Char) (exponent : Int) (pointZero : Bool) : List Char :=
  if 0 ≤ exponent then
    digits ++ List.replicate exponent.toNat '0' ++ (if pointZero then ['.', '0'] else [])
  else
    let places := (-exponent).toNat
    if places < digits.length then
      digits.take (digits.length - places) ++ '.' :: digits.drop (digits.length - places)
    else
      '0' :: '.' :: List.replicate (places - digits.length) '0' ++ digits

/-- One digit, a point before the others, and a signed exponent. -/
def scientificText (digits : List Char) (leading : Int) : List Char :=
  let exponent := 'e' :: (if leading < 0 then '-' else '+') :: digitChars leading.natAbs
  match digits with
  | [] => exponent
  | [d] => d :: exponent
  | d :: rest => d :: '.' :: rest ++ exponent

/-- The text of `digits * 10 ^ exponent`. -/
def Layout.magnitude (l : Layout) (s : Scaled) : List Char :=
  let digits := digitChars s.digits
  let leading := s.exponent + digits.length - 1
  if l.positional leading then positionalText digits s.exponent l.pointZero
  else scientificText digits leading

/-- The text of a finite float. -/
def Layout.finite (l : Layout) (x : Float) : List Char :=
  let digits := l.magnitude ((binary x).shortest l.tie)
  if isNegative x then '-' :: digits else digits

/-- The text of any float in a message: the shortest digits, never an exponent. -/
def plainText (x : Float) : String :=
  if x.isNaN then "NaN"
  else if x.isInf then (if isNegative x then "-inf" else "inf")
  else String.ofList (plain.finite x)

/-- The text of a finite float in a document. -/
def jsonText (x : Float) : String :=
  String.ofList (json.finite x)

end BoundaryAtlas.Decimal
