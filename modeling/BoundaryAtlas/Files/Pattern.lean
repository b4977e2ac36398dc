import BoundaryAtlas.Files.Path

/-!
# Patterns of paths

A question mark stands for any character, a star for any text, and brackets for one of some
characters, or for any other if they begin with an exclamation mark. Two stars between slashes
stand for any number of folders. No other piece goes past a slash.
-/

namespace BoundaryAtlas.Pattern

/-- A part of a name. -/
inductive Piece where
  | char (c : Char)
  | anyChar
  | anyText
  | oneOf (ranges : List (Char × Char))
  | noneOf (ranges : List (Char × Char))
  deriving DecidableEq, Repr

def isSpecial (c : Char) : Bool := c = '*' || c = '?' || c = '['

/-- A path with a special character is a pattern. -/
def isPattern (path : String) : Bool := path.toList.any isSpecial

/-! ## Reading -/

/-- The ranges between brackets. A character without a dash behind it is a range of its own. -/
def ranges : List Char → List (Char × Char)
  | lo :: '-' :: hi :: cs => (lo, hi) :: ranges cs
  | c :: cs => (c, c) :: ranges cs
  | [] => []

/-- The text up to a closing bracket, and what follows it. -/
def cutBracket : List Char → Option (List Char × List Char)
  | [] => none
  | ']' :: cs => some ([], cs)
  | c :: cs => (cutBracket cs).map fun (front, rest) => (c :: front, rest)

theorem length_rest_cutBracket {cs front rest : List Char} (h : cutBracket cs = some (front, rest)) :
    rest.length < cs.length := by
  fun_induction cutBracket cs generalizing front with
  | case1 => cases h
  | case2 cs => cases h; simp
  | case3 c cs _ ih =>
    obtain ⟨⟨found, left⟩, hcut, hpair⟩ := Option.map_eq_some_iff.1 h
    cases hpair
    exact Nat.lt_succ_of_lt (ih hcut)

/-- The pieces of a name. A bracket has to be closed behind its first character. -/
def pieces? : List Char → Option (List Piece)
  | [] => some []
  | '?' :: cs => (pieces? cs).map (.anyChar :: ·)
  | '*' :: cs => if cs.head? = some '*' then none else (pieces? cs).map (.anyText :: ·)
  | '[' :: '!' :: c :: cs =>
    match h : cutBracket cs with
    | some (inside, rest) =>
      have := length_rest_cutBracket h
      (pieces? rest).map (.noneOf (ranges (c :: inside)) :: ·)
    | none => none
  | '[' :: c :: cs =>
    match h : cutBracket cs with
    | some (inside, rest) =>
      have := length_rest_cutBracket h
      if c = '!' then none else (pieces? rest).map (.oneOf (ranges (c :: inside)) :: ·)
    | none => none
  | c :: cs => if c = '[' then none else (pieces? cs).map (.char c :: ·)
termination_by cs => cs.length

/-- A step of a path. -/
inductive Step where
  | name (text : String)
  | wild (pieces : List Piece)
  /-- Any number of folders. -/
  | folders
  deriving DecidableEq, Repr

/-- The text of pieces that stand for themselves. -/
def plainText? : List Piece → Option (List Char)
  | [] => some []
  | .char c :: pieces => (plainText? pieces).map (c :: ·)
  | _ :: _ => none

def step? (part : List Char) : Option Step :=
  if part = "**".toList then some .folders
  else (pieces? part).map fun pieces =>
    match plainText? pieces with
    | some text => .name (String.ofList text)
    | none => .wild pieces

/-- The steps of a pattern, below the root if it begins there. Empty parts are steps, but not
the one behind a slash at the end. -/
def steps? (path : String) : Option (List Step) :=
  let cs := path.toList
  let parts := Path.split (if cs.head? = some '/' then cs.drop 1 else cs)
  (if parts.getLast? = some [] then parts.dropLast else parts).mapM step?

/-! ## Matching -/

/-- Whether a name has some pieces. -/
inductive Fit where
  | whole
  | unfit
  /-- The name ends before the pieces do. To skip more of its front is then of no use. -/
  | tooShort
  deriving DecidableEq, Repr

/-- Skips more and more characters until the rest fits or is too short. -/
def afterAny (fit : List Char → Fit) : List Char → Fit
  | [] => fit []
  | c :: cs =>
    match fit (c :: cs) with
    | .unfit => afterAny fit cs
    | found => found

def Piece.accepts (c : Char) : Piece → Bool
  | .char d => c = d
  | .anyChar => true
  | .anyText => false
  | .oneOf ranges => ranges.any fun (lo, hi) => lo ≤ c && c ≤ hi
  | .noneOf ranges => !ranges.any fun (lo, hi) => lo ≤ c && c ≤ hi

def fit : List Piece → List Char → Fit
  | [], cs => if cs = [] then .whole else .unfit
  | .anyText :: pieces, cs => afterAny (fit pieces) cs
  | piece :: pieces, c :: cs => if piece.accepts c then fit pieces cs else .unfit
  | _ :: _, [] => .tooShort

/-- Whether a whole name has the pieces. -/
def matchesName (pieces : List Piece) (cs : List Char) : Bool := fit pieces cs = .whole

/-- Whether a name fits a step. -/
def Step.accepts (name : String) : Step → Bool
  | .name text => name = text
  | .wild pieces => matchesName pieces name.toList
  | .folders => false

/-- The two names that stay in place and lead up are found if the pattern begins with a dot. -/
def dotNames (pieces : List Piece) : List String :=
  if pieces.head? = some (.char '.') then
    [".", ".."].filter fun name => matchesName pieces name.toList
  else []

end BoundaryAtlas.Pattern
