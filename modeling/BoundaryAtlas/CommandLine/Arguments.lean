import BoundaryAtlas.Decimal.Parse

/-!
# Arguments

An argument is a flag, or an option with a value. A value follows its option, or stands after
an equals sign. A value that follows may not begin with a dash. Nothing may be given twice.
-/

namespace BoundaryAtlas.CommandLine

/-- What an option takes. -/
inductive ValueKind where
  | float
  | word32
  | word64
  /-- Any text but the empty one. -/
  | path
  /-- One of some words. -/
  | choice (words : List String)
  deriving DecidableEq, Repr

def ValueKind.accepts (kind : ValueKind) (s : String) : Bool :=
  match kind with
  | .float => (Decimal.parseFloat? s).isSome
  | .word32 => (Decimal.parseWord? 32 true s).isSome
  | .word64 => (Decimal.parseWord? 64 false s).isSome
  | .path => !s.isEmpty
  | .choice words => words.contains s

/-- Why arguments are not accepted. -/
inductive Refusal where
  /-- A question for help. It ends well, but nothing runs. -/
  | help
  | usage
  deriving DecidableEq, Repr

/-- The names that a command knows, without their dashes. -/
structure Vocabulary where
  options : List (String × ValueKind)
  flags : List String

/-- What was given. Flags have no value. -/
abbrev Given := List (String × Option String)

/-- Notes a name with its value, unless it was given before. -/
def Given.add (g : Given) (name : String) (value : Option String) : Except Refusal Given :=
  if g.any (·.1 = name) then .error .usage else .ok (g ++ [(name, value)])

/-- Notes an option if its kind accepts the value. -/
def Given.addOption (g : Given) (name : String) (kind : ValueKind) (value : String) :
    Except Refusal Given :=
  if kind.accepts value then g.add name (some value) else .error .usage

/-- The letters of a short argument. -/
def shortFlags (given : Given) : List Char → Except Refusal Given
  | [] => .ok given
  | 'v' :: cs =>
    match given.add "verbose" none with
    | .ok given => shortFlags given cs
    | .error refusal => .error refusal
  | 'h' :: _ => .error .help
  | _ => .error .usage

/-- The argument may stand as a value. -/
def isValue (s : String) : Bool := s = "-" || s.toList.head? ≠ some '-'

/-- A long argument at its equals sign. -/
def cutAtEquals (cs : List Char) : String × Option String :=
  match cs.dropWhile (· ≠ '=') with
  | [] => (String.ofList cs, none)
  | _ :: value => (String.ofList (cs.takeWhile (· ≠ '=')), some (String.ofList value))

/-- Reads arguments from left to right. -/
def readArguments (known : Vocabulary) (given : Given) : List String → Except Refusal Given
  | [] => .ok given
  | arg :: rest =>
    match arg.toList with
    | ['-', '-'] => if rest = [] then .ok given else .error .usage
    | '-' :: '-' :: long =>
      let (name, attached) := cutAtEquals long
      match known.options.lookup name, attached, rest with
      | some kind, some value, rest =>
        match given.addOption name kind value with
        | .ok given => readArguments known given rest
        | .error refusal => .error refusal
      | some _, none, [] => .error .usage
      | some kind, none, value :: rest =>
        if isValue value then
          match given.addOption name kind value with
          | .ok given => readArguments known given rest
          | .error refusal => .error refusal
        else .error .usage
      | none, some _, _ => .error .usage
      | none, none, rest =>
        if name = "help" then .error .help
        else if known.flags.contains name then
          match given.add name none with
          | .ok given => readArguments known given rest
          | .error refusal => .error refusal
        else .error .usage
    | '-' :: c :: short =>
      match shortFlags given (c :: short) with
      | .ok given => readArguments known given rest
      | .error refusal => .error refusal
    | _ => .error .usage

/-! ## What was given -/

namespace Given

def flag (g : Given) (name : String) : Bool := g.any (·.1 = name)
def value? (g : Given) (name : String) : Option String := (g.lookup name).join
def float? (g : Given) (name : String) : Option Float :=
  (g.value? name).bind Decimal.parseFloat?
def word32? (g : Given) (name : String) : Option Nat :=
  (g.value? name).bind (Decimal.parseWord? 32 true)
def word64? (g : Given) (name : String) : Option Nat :=
  (g.value? name).bind (Decimal.parseWord? 64 false)

end Given

end BoundaryAtlas.CommandLine
