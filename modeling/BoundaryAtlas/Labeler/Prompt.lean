import BoundaryAtlas.Decimal.Fixed
import BoundaryAtlas.Labeler.Basic
import BoundaryAtlas.Text.Blank

/-!
# Asking a person

The prompt labeler prints a summary of the trace and reads lines until one of them is an
answer. The end of the input, a line that is no text and a failed write all give the verdict
`false`.
-/

namespace BoundaryAtlas

namespace Prompt

/-! ## Lines -/

def newline : UInt8 := 10

/-- The lines of an input, each with the newline that ends it. -/
def lines : List UInt8 → List (List UInt8)
  | [] => []
  | b :: rest =>
    if b = newline then [b] :: lines rest
    else
      match lines rest with
      | [] => [[b]]
      | line :: more => (b :: line) :: more

/-- What a line says. -/
inductive Answer where
  | yes
  | no
  /-- The bytes are no text. -/
  | unreadable
  /-- Text that is no answer. -/
  | unclear
  deriving DecidableEq, Repr

/-- Blanks around an answer and the case of its letters do not matter. -/
def Answer.ofText (text : List Char) : Answer :=
  let word := String.ofList ((Text.trim text).map Char.toLower)
  if word = "y" ∨ word = "yes" then .yes
  else if word = "n" ∨ word = "no" then .no
  else .unclear

def Answer.ofLine (line : List UInt8) : Answer :=
  match String.fromUTF8? ⟨line.toArray⟩ with
  | some text => .ofText text.toList
  | none => .unreadable

/-! ## The conversation -/

/-- The lines that are left to read, and the text written so far. -/
structure State where
  left : List (List UInt8)
  written : String
  /-- Every write fails. -/
  broken : Bool
  /-- The text up to the first question that met the end of the input. -/
  unanswered? : Option String
  deriving DecidableEq, Repr

def State.ofBytes (input : List UInt8) (broken : Bool) : State := ⟨lines input, "", broken, none⟩

def question : String := "positive? [y/n] "
def reminder : String := "please answer y or n\n"

/-- Asks until a line is an answer. At the end of the input the verdict is `false`. -/
def ask (s : State) : List (List UInt8) → String → Bool × State
  | [], written =>
    let written := written ++ question
    (false, { s with left := [], written, unanswered? := s.unanswered?.or (some written) })
  | line :: left, written =>
    match Answer.ofLine line with
    | .yes => (true, { s with left, written := written ++ question })
    | .no | .unreadable => (false, { s with left, written := written ++ question })
    | .unclear => ask s left (written ++ question ++ reminder)

/-- One line about a trace: its ends and the range of its values. -/
def summary (trace : Trace Float) (first last : Point Float) : String :=
  let lo := (trace.map (·.y)).foldl Scalar.smaller (1.0 / 0.0)
  let hi := (trace.map (·.y)).foldl Scalar.larger (-1.0 / 0.0)
  let place := fun p : Point Float =>
    "(" ++ Decimal.fixedText p.x 3 ++ ", " ++ Decimal.fixedText p.y 4 ++ ")"
  "trace: " ++ toString trace.length ++ " samples, " ++ place first ++ " -> " ++ place last ++
    ", y in [" ++ Decimal.fixedText lo 4 ++ ", " ++ Decimal.fixedText hi 4 ++ "]\n"

/-- An empty trace is negative, and nobody is asked. -/
def classify (s : State) (trace : Trace Float) : Bool × State :=
  match trace.head?, trace.getLast? with
  | some first, some last =>
    if s.broken then (false, s)
    else ask s s.left (s.written ++ summary trace first last)
  | _, _ => (false, s)

/-- The labeler. Its answers belong to the traces in the order they are asked in. -/
def labeler : Labeler Float State where
  name := "prompt"
  parallelSafe := false
  checkDomain := fun _ _ => .ok ()
  classify := classify

end Prompt

end BoundaryAtlas
