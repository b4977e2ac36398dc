/-!
# Paths

A path is split at `/`. Empty parts lead nowhere, and single dots stay where they are.
-/

namespace BoundaryAtlas.Path

/-- The parts between slashes, empty ones included. -/
def split : List Char → List (List Char)
  | [] => [[]]
  | c :: cs =>
    if c = '/' then [] :: split cs
    else
      match split cs with
      | [] => [[c]]
      | part :: parts => (c :: part) :: parts

/-- The parts that are not empty. -/
def steps (path : String) : List String :=
  ((split path.toList).filter (· ≠ [])).map String.ofList

/-- Drops slashes and single dots at the end. The text is given and returned backward. -/
def trimEnd : List Char → List Char
  | '/' :: cs => trimEnd cs
  | '.' :: '/' :: cs => trimEnd cs
  | cs => cs

/-- The last part with a name of its own, unless it is a step up. -/
def fileName? (path : String) : Option String :=
  match ((steps path).filter (· ≠ ".")).getLast? with
  | some ".." => none
  | found => found

/-- The text before the last part, backward. -/
def above (backward : List Char) : List Char :=
  let rest := backward.dropWhile (· ≠ '/')
  if rest ≠ [] ∧ trimEnd rest = [] then ['/'] else trimEnd rest

/-- The text before the last part. A path of one part has an empty parent. -/
def parent? (path : String) : Option String :=
  match trimEnd path.toList.reverse with
  | [] => none
  | cs => some (String.ofList (above cs).reverse)

theorem length_trimEnd_le (cs : List Char) : (trimEnd cs).length ≤ cs.length := by
  fun_induction trimEnd cs <;> grind

theorem head?_trimEnd (cs : List Char) : (trimEnd cs).head? ≠ some '/' := by
  fun_induction trimEnd cs with
  | case1 _ ih | case2 _ ih => exact ih
  | case3 cs h =>
    cases cs with
    | nil => simp
    | cons c cs =>
      intro hc
      exact h cs (by simpa using hc)

theorem length_above_lt {cs : List Char} (hcs : cs ≠ []) (h : cs.head? ≠ some '/') :
    (above cs).length < cs.length := by
  obtain ⟨c, rest, rfl⟩ := List.exists_cons_of_ne_nil hcs
  have hc : c ≠ '/' := by simpa using h
  have hdrop : ((c :: rest).dropWhile (· ≠ '/')).length ≤ rest.length := by
    simpa [hc] using (List.dropWhile_sublist _).length_le
  have htrim := length_trimEnd_le ((c :: rest).dropWhile (· ≠ '/'))
  simp only [above]
  split
  · rename_i hrest
    have := List.length_pos_iff.2 hrest.1
    simp only [List.length_cons, List.length_nil]
    omega
  · simp only [List.length_cons]
    omega

theorem length_parent?_lt {path parent : String} (h : parent? path = some parent) :
    parent.length < path.length := by
  have hle := length_trimEnd_le path.toList.reverse
  have hhead := head?_trimEnd path.toList.reverse
  unfold parent? at h
  split at h
  · cases h
  · rename_i hne
    cases h
    have := length_above_lt hne hhead
    simp only [List.length_reverse, String.length_toList] at hle
    simp only [String.length_ofList, List.length_reverse]
    omega

/-- The path says that it stays where it starts. -/
def isHere (path : String) : Bool :=
  !path.startsWith "/" && steps path ≠ [] && (steps path).all (· = ".")

/-! ## Stems and extensions -/

/-- Cuts a name at its last dot. A dot in front cuts nothing off. -/
def cutName (name : String) : String × Option String :=
  let backward := name.toList.reverse
  let ext := backward.takeWhile (· ≠ '.')
  match backward.dropWhile (· ≠ '.') with
  | _ :: c :: stem => (String.ofList (c :: stem).reverse, some (String.ofList ext.reverse))
  | _ => (name, none)

def stem? (path : String) : Option String := (fileName? path).map fun name => (cutName name).1
def extension? (path : String) : Option String := (fileName? path).bind fun name => (cutName name).2

/-- A path below a folder. -/
def join (folder name : String) : String :=
  if folder.isEmpty ∨ folder.endsWith "/" then folder ++ name else folder ++ "/" ++ name

/-- The path with another last part. -/
def withFileName (path name : String) : String :=
  match fileName? path with
  | some _ => join ((parent? path).getD "") name
  | none => join path name

end BoundaryAtlas.Path
