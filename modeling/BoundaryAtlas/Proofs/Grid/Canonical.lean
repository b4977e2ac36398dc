import Mathlib.Data.List.Chain
import Mathlib.Data.List.Infix
import Mathlib.Data.List.Sort
import BoundaryAtlas.Grid.Search

/-!
# Canonical boundaries

A canonical boundary runs from the first column to the last, and each inner point is a kink.
Seen from its end, it is built point by point, and each new point only has to fit to the two
before it.
-/

namespace BoundaryAtlas

/-! ## The order of nodes -/

namespace GridPoint

theorem cmp_lt_iff (p q : GridPoint) :
    cmp p q = .lt ↔ p.col < q.col ∨ p.col = q.col ∧ p.row < q.row := by
  simp only [cmp, compareLex, compareOn, Ordering.then_eq_lt, Nat.compare_eq_lt, Nat.compare_eq_eq]

theorem cmp_lt_irrefl (p : GridPoint) : cmp p p ≠ .lt := by
  rw [Ne, cmp_lt_iff]; omega

instance : Std.Irrefl fun p q : GridPoint => cmp p q = .lt := ⟨cmp_lt_irrefl⟩

instance : Std.Antisymm fun p q : GridPoint => cmp p q = .lt where
  antisymm p q h h' := by
    rw [cmp_lt_iff] at h h'
    omega

theorem cross_eq_zero_of_col_eq (p q r : GridPoint) (h : p.col = q.col) (h' : q.col = r.col) :
    cross p q r = 0 := by
  simp [cross, h, h']

theorem ne_of_cross_ne_zero (p q r : GridPoint) (h : cross p q r ≠ 0) : p ≠ q ∧ q ≠ r := by
  constructor <;> rintro rfl <;> simp [cross] at h

theorem collinear_eq_false_iff (p q r : GridPoint) : collinear p q r = false ↔ cross p q r ≠ 0 := by
  simp [collinear]

end GridPoint

/-! ## Canonical form -/

namespace GridBoundary

variable {α : Type}

/-- A boundary in canonical form with the given number of kinks. -/
structure IsCanonical (d : Grid α) (kinks : Nat) (b : GridBoundary) : Prop where
  length_eq : b.points.length = kinks + 2
  starts : ∀ p ∈ b.points.head?, p.col = 0
  ends : ∀ p ∈ b.points.getLast?, p.col = d.numX
  ordered : b.points.IsChain fun p q => p.col ≤ q.col
  nodes : ∀ p ∈ b.points, p.col ≤ d.numX ∧ p.row ≤ d.numY
  bends : ∀ p q r, [p, q, r] <:+: b.points → GridPoint.cross p q r ≠ 0

theorem turns_eq (l : List GridPoint)
    (h : ∀ p q r, [p, q, r] <:+: l → GridPoint.cross p q r ≠ 0) : turns l = l.length - 2 := by
  induction l with
  | nil => rfl
  | cons p l ih =>
    match l with
    | [] => rfl
    | [_] => rfl
    | q :: r :: rest =>
      have hpqr : GridPoint.collinear p q r = false :=
        (GridPoint.collinear_eq_false_iff p q r).mpr (h p q r ⟨[], rest, rfl⟩)
      have ih := ih fun a b c habc => h a b c (List.infix_cons habc)
      rw [turns, hpqr, ih]
      simp only [Bool.false_eq_true, if_false, List.length_cons]
      omega

namespace IsCanonical

variable {d : Grid α} {n : Nat} {b : GridBoundary}

theorem points_ne_nil (h : b.IsCanonical d n) : b.points ≠ [] := by
  intro hnil
  have := h.length_eq
  simp [hnil] at this

theorem kinks_eq (h : b.IsCanonical d n) : b.kinks = n := by
  rw [kinks, turns_eq b.points h.bends, h.length_eq]
  omega

end IsCanonical

end GridBoundary

/-! ## Beginnings -/

/-- `p` may follow `path`, whose last point comes first. -/
structure Search.Leads (s : Search) (path : List GridPoint) (p : GridPoint) : Prop where
  col_le : p.col ≤ s.numX
  row_le : p.row ≤ s.numY
  stays : Search.staysKink path p = true
  first : path = [] → p.col = 0
  ordered : ∀ q ∈ path.head?, q.col ≤ p.col

/-- A canonical boundary may begin with `path`, whose last point comes first. -/
def Search.Beginning (s : Search) : List GridPoint → Prop
  | [] => True
  | p :: path => s.Beginning path ∧ s.Leads path p

namespace Search

theorem staysKink_cons_cons (q o : GridPoint) (path : List GridPoint) (p : GridPoint) :
    staysKink (q :: o :: path) p = !GridPoint.collinear o q p := rfl

theorem staysKink_iff (path : List GridPoint) (p : GridPoint) :
    staysKink path p = true ↔ ∀ o q, [q, o] <+: path → GridPoint.cross o q p ≠ 0 := by
  match path with
  | [] => exact iff_of_true rfl (by simp)
  | [_] => exact iff_of_true rfl (by simp)
  | q :: o :: rest =>
    simp only [staysKink_cons_cons, Bool.not_eq_true', GridPoint.collinear_eq_false_iff,
      List.cons_prefix_cons, List.nil_prefix, and_true]
    constructor
    · rintro h _ _ ⟨rfl, rfl⟩
      exact h
    · intro h
      exact h o q ⟨rfl, rfl⟩

theorem triple_suffix_iff (path : List GridPoint) (p o q r : GridPoint) :
    [o, q, r] <:+ (p :: path).reverse ↔ r = p ∧ [q, o] <+: path := by
  rw [show [o, q, r] = [r, q, o].reverse from rfl, List.reverse_suffix, List.cons_prefix_cons]

/-- Beginnings have all properties of canonical boundaries but the last column. -/
theorem beginning_iff (s : Search) (path : List GridPoint) :
    s.Beginning path ↔
      (∀ p ∈ path.getLast?, p.col = 0) ∧
      path.reverse.IsChain (fun p q => p.col ≤ q.col) ∧
      (∀ p ∈ path, p.col ≤ s.numX ∧ p.row ≤ s.numY) ∧
      ∀ p q r, [p, q, r] <:+: path.reverse → GridPoint.cross p q r ≠ 0 := by
  induction path with
  | nil => simp [Beginning]
  | cons p path ih =>
    have hstarts : (∀ q ∈ (p :: path).getLast?, q.col = 0) ↔
        (path = [] → p.col = 0) ∧ ∀ q ∈ path.getLast?, q.col = 0 := by
      cases path with
      | nil => simp
      | cons q rest => simp [List.getLast?_cons_cons]
    have hordered : (p :: path).reverse.IsChain (fun p q => p.col ≤ q.col) ↔
        path.reverse.IsChain (fun p q => p.col ≤ q.col) ∧ ∀ q ∈ path.head?, q.col ≤ p.col := by
      rw [List.reverse_cons, List.isChain_append]
      simp
    have hbends : (∀ a b c, [a, b, c] <:+: (p :: path).reverse → GridPoint.cross a b c ≠ 0) ↔
        (∀ a b c, [a, b, c] <:+: path.reverse → GridPoint.cross a b c ≠ 0) ∧
          staysKink path p = true := by
      rw [staysKink_iff]
      constructor
      · intro h
        refine ⟨fun a b c habc => h a b c ?_, fun o q hoq => h o q p ?_⟩
        · rw [List.reverse_cons]
          exact habc.trans (List.prefix_append _ _).isInfix
        · exact ((triple_suffix_iff path p o q p).mpr ⟨rfl, hoq⟩).isInfix
      · rintro ⟨hpath, hp⟩ a b c habc
        rw [List.reverse_cons, List.infix_concat_iff, ← List.reverse_cons,
          triple_suffix_iff] at habc
        rcases habc with ⟨rfl, hab⟩ | habc
        · exact hp a b hab
        · exact hpath a b c habc
    rw [Beginning, ih, hstarts, hordered, hbends, List.forall_mem_cons]
    constructor
    · rintro ⟨⟨h₁, h₂, h₃, h₄⟩, hp⟩
      exact ⟨⟨hp.first, h₁⟩, ⟨h₂, hp.ordered⟩, ⟨⟨hp.col_le, hp.row_le⟩, h₃⟩, h₄, hp.stays⟩
    · rintro ⟨⟨hfirst, h₁⟩, ⟨h₂, hordered⟩, ⟨⟨hcol, hrow⟩, h₃⟩, h₄, hstays⟩
      exact ⟨⟨h₁, h₂, h₃, h₄⟩, hcol, hrow, hstays, hfirst, hordered⟩

theorem isCanonical_iff {α : Type} (d : Grid α) (n : Nat) (b : GridBoundary) :
    b.IsCanonical d n ↔ b.points.length = n + 2 ∧ (new d n).Beginning b.points.reverse ∧
      ∀ p ∈ b.points.getLast?, p.col = d.numX := by
  rw [beginning_iff, List.getLast?_reverse, List.reverse_reverse]
  simp only [List.mem_reverse]
  constructor
  · rintro ⟨hlen, hstarts, hends, hord, hnodes, hbends⟩
    exact ⟨hlen, ⟨hstarts, hord, hnodes, hbends⟩, hends⟩
  · rintro ⟨hlen, ⟨hstarts, hord, hnodes, hbends⟩, hends⟩
    exact ⟨hlen, hstarts, hends, hord, hnodes, hbends⟩

/-! ## Room for kinks -/

theorem not_third_in_column (path : List GridPoint) (p : GridPoint) (o q : GridPoint)
    (hstays : staysKink (q :: o :: path) p = true) (hq : o.col = q.col) : q.col ≠ p.col := by
  intro hp
  rw [staysKink_iff] at hstays
  exact hstays o q ⟨path, rfl⟩ (GridPoint.cross_eq_zero_of_col_eq o q p hq hp)

theorem length_beginning_le (s : Search) (path : List GridPoint) (p : GridPoint)
    (h : s.Beginning (p :: path)) :
    path.length + 1 ≤ 2 * p.col + if ∃ q ∈ path.head?, q.col = p.col then 2 else 1 := by
  induction path generalizing p with
  | nil => simp
  | cons q path ih =>
    obtain ⟨hpath, hp⟩ := h
    have ih := ih q hpath
    have hle : q.col ≤ p.col := hp.ordered q rfl
    simp only [List.head?_cons, Option.mem_def, Option.some.injEq, exists_eq_left',
      List.length_cons]
    split
    · rename_i heq
      -- The column of `p` and `q` holds no third point.
      have hlast : ¬ ∃ o ∈ path.head?, o.col = q.col := by
        rintro ⟨o, ho, hoq⟩
        obtain ⟨rest, rfl⟩ : ∃ rest, path = o :: rest := by
          cases path with
          | nil => simp at ho
          | cons a rest => simp at ho; exact ⟨rest, by rw [ho]⟩
        exact not_third_in_column rest p o q hp.stays hoq heq
      rw [if_neg hlast] at ih
      omega
    · split at ih <;> omega

theorem kinks_le_of_isCanonical {α : Type} {d : Grid α} {n : Nat} {b : GridBoundary}
    (h : b.IsCanonical d n) : n ≤ d.kinkLimit := by
  obtain ⟨hlen, hbeg, hends⟩ := (isCanonical_iff d n b).mp h
  obtain ⟨p, path, hrev⟩ := List.exists_cons_of_ne_nil (List.reverse_ne_nil_iff.mpr h.points_ne_nil)
  have hp : p.col = d.numX := by
    apply hends
    rw [← List.head?_reverse, hrev]
    rfl
  rw [hrev] at hbeg
  have hle := length_beginning_le _ path p hbeg
  have hlen' : b.points.length = path.length + 1 := by
    simpa using congrArg List.length hrev
  rw [Grid.kinkLimit]
  split at hle <;> omega

end Search

end BoundaryAtlas
