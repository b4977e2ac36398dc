import Mathlib.Data.List.Chain
import BoundaryAtlas.Proofs.Grid.Enumeration
import BoundaryAtlas.Grid.Sample

/-!
# Draws and boundaries

Slots in order, each less its rank, are columns that never go back, and every such list of columns
comes from one set of slots. So a canonical boundary has exactly one draw, and the accepted draws
are those of canonical boundaries.
-/

namespace BoundaryAtlas

namespace SampleDraw

/-- What may be drawn for `kinks` kinks: as many slots, in order, and a row for each point. -/
structure IsDraw (numX numY kinks : Nat) (s : SampleDraw) : Prop where
  ordered : s.slots.IsChain (· < ·)
  slots_lt : ∀ c ∈ s.slots, c < numX + kinks
  length_slots : s.slots.length = kinks
  length_rows : s.rows.length = kinks + 2
  rows_le : ∀ y ∈ s.rows, y ≤ numY

/-- The draw is accepted: all inner points of its boundary are kinks. -/
def Accepted (numX kinks : Nat) (s : SampleDraw) : Prop := (s.boundary numX).kinks = kinks

/-! ## Slots and columns -/

/-- Slots less their ranks, where the first rank is `k`. -/
def columnsFrom : (k : Nat) → List Nat → List Nat
  | _, [] => []
  | k, c :: l => (c - k) :: columnsFrom (k + 1) l

/-- Columns with their ranks added, where the first rank is `k`. -/
def slotsFrom : (k : Nat) → List Nat → List Nat
  | _, [] => []
  | k, c :: l => (c + k) :: slotsFrom (k + 1) l

theorem columns_eq (s : SampleDraw) : s.columns = columnsFrom 0 s.slots := by
  have hfrom : ∀ (l : List Nat) (k : Nat),
      (l.zipIdx k).map (fun c => c.1 - c.2) = columnsFrom k l := by
    intro l
    induction l with
    | nil => intro k; rfl
    | cons c l ih =>
      intro k
      rw [List.zipIdx_cons, List.map_cons, ih]
      rfl
  exact hfrom s.slots 0

@[simp] theorem length_columnsFrom (k : Nat) (l : List Nat) :
    (columnsFrom k l).length = l.length := by
  induction l generalizing k with
  | nil => rfl
  | cons c l ih => simp [columnsFrom, ih]

@[simp] theorem length_slotsFrom (k : Nat) (l : List Nat) : (slotsFrom k l).length = l.length := by
  induction l generalizing k with
  | nil => rfl
  | cons c l ih => simp [slotsFrom, ih]

@[simp] theorem columnsFrom_slotsFrom (k : Nat) (l : List Nat) :
    columnsFrom k (slotsFrom k l) = l := by
  induction l generalizing k with
  | nil => rfl
  | cons c l ih => simp [slotsFrom, columnsFrom, ih]

theorem slotsFrom_columnsFrom (k : Nat) (l : List Nat) (hord : l.IsChain (· < ·))
    (hle : ∀ c ∈ l.head?, k ≤ c) : slotsFrom k (columnsFrom k l) = l := by
  induction l generalizing k with
  | nil => rfl
  | cons c l ih =>
    obtain ⟨hnext, hord⟩ := List.isChain_cons.mp hord
    have hc : k ≤ c := hle c rfl
    rw [columnsFrom, slotsFrom, Nat.sub_add_cancel hc, ih (k + 1) hord]
    intro c' hc'
    exact Nat.lt_of_le_of_lt hc (hnext c' hc')

theorem isChain_columnsFrom (k : Nat) (l : List Nat) (h : l.IsChain (· < ·)) :
    (columnsFrom k l).IsChain (· ≤ ·) := by
  induction l generalizing k with
  | nil => exact .nil
  | cons c l ih =>
    cases l with
    | nil => exact .singleton _
    | cons c' l =>
      obtain ⟨hlt, hord⟩ := List.isChain_cons_cons.mp h
      exact .cons_cons (show c - k ≤ c' - (k + 1) by omega) (ih (k + 1) hord)

theorem isChain_slotsFrom (k : Nat) (l : List Nat) (h : l.IsChain (· ≤ ·)) :
    (slotsFrom k l).IsChain (· < ·) := by
  induction l generalizing k with
  | nil => exact .nil
  | cons c l ih =>
    cases l with
    | nil => exact .singleton _
    | cons c' l =>
      obtain ⟨hle, hord⟩ := List.isChain_cons_cons.mp h
      exact .cons_cons (show c + k < c' + (k + 1) by omega) (ih (k + 1) hord)

theorem add_length_lt (c : Nat) (l : List Nat) (bound : Nat) (hord : (c :: l).IsChain (· < ·))
    (hlt : ∀ x ∈ c :: l, x < bound) : c + l.length < bound := by
  induction l generalizing c with
  | nil => exact hlt c List.mem_cons_self
  | cons c' l ih =>
    obtain ⟨hnext, hord⟩ := List.isChain_cons_cons.mp hord
    have := ih c' hord fun x hx => hlt x (List.mem_cons_of_mem c hx)
    rw [List.length_cons]
    omega

theorem columnsFrom_le (k n : Nat) (l : List Nat) (hord : l.IsChain (· < ·))
    (hlt : ∀ c ∈ l, c < n + (k + l.length)) : ∀ c ∈ columnsFrom k l, c ≤ n := by
  induction l generalizing k with
  | nil => simp [columnsFrom]
  | cons c l ih =>
    rw [List.length_cons] at hlt
    have hfirst := add_length_lt c l _ hord hlt
    have hrest := ih (k + 1) hord.tail fun x hx => by
      have := hlt x (List.mem_cons_of_mem c hx)
      omega
    rw [columnsFrom, List.forall_mem_cons]
    exact ⟨by omega, hrest⟩

theorem slotsFrom_lt (k n : Nat) (l : List Nat) (h : ∀ c ∈ l, c ≤ n) :
    ∀ c ∈ slotsFrom k l, c < n + (k + l.length) := by
  induction l generalizing k with
  | nil => simp [slotsFrom]
  | cons c l ih =>
    obtain ⟨hc, hl⟩ := List.forall_mem_cons.mp h
    rw [slotsFrom, List.forall_mem_cons, List.length_cons]
    refine ⟨by omega, fun x hx => ?_⟩
    have := ih (k + 1) hl x hx
    omega

theorem isChain_between (n : Nat) (l : List Nat) (hord : l.IsChain (· ≤ ·)) (hle : ∀ c ∈ l, c ≤ n) :
    (0 :: l ++ [n]).IsChain (· ≤ ·) := by
  have hend : (l ++ [n]).IsChain (· ≤ ·) := by
    refine hord.append (.singleton n) fun c hc n' hn' => ?_
    obtain rfl : n = n' := by simpa using hn'
    exact hle c (List.mem_of_getLast? hc)
  exact List.isChain_cons.mpr ⟨fun _ _ => Nat.zero_le _, hend⟩

/-! ## The boundary of a draw -/

theorem map_col_boundary (s : SampleDraw) (numX : Nat)
    (hlen : s.rows.length = s.slots.length + 2) :
    (s.boundary numX).points.map GridPoint.col = 0 :: s.columns ++ [numX] := by
  have hle : (0 :: s.columns ++ [numX]).length ≤ s.rows.length := by
    simp [columns_eq, hlen]
  rw [boundary, ← List.map_uncurry_zip_eq_zipWith, List.map_map]
  exact List.map_fst_zip hle

theorem map_row_boundary (s : SampleDraw) (numX : Nat)
    (hlen : s.rows.length = s.slots.length + 2) :
    (s.boundary numX).points.map GridPoint.row = s.rows := by
  have hle : s.rows.length ≤ (0 :: s.columns ++ [numX]).length := by
    simp [columns_eq, hlen]
  rw [boundary, ← List.map_uncurry_zip_eq_zipWith, List.map_map]
  exact List.map_snd_zip hle

variable {numX numY kinks : Nat} {s t : SampleDraw}

theorem IsDraw.length_eq (h : s.IsDraw numX numY kinks) :
    s.rows.length = s.slots.length + 2 := by rw [h.length_rows, h.length_slots]

theorem IsDraw.eq_of_boundary_eq (hs : s.IsDraw numX numY kinks) (ht : t.IsDraw numX numY kinks)
    (h : s.boundary numX = t.boundary numX) : s = t := by
  have hcolumns : s.columns = t.columns := by
    have hcols := congrArg (fun b => b.points.map GridPoint.col) h
    simp only [map_col_boundary s numX hs.length_eq, map_col_boundary t numX ht.length_eq] at hcols
    exact List.append_cancel_right (List.cons.inj hcols).2
  have hrows : s.rows = t.rows := by
    rw [← map_row_boundary s numX hs.length_eq, ← map_row_boundary t numX ht.length_eq, h]
  have hslots : s.slots = t.slots := by
    rw [columns_eq, columns_eq] at hcolumns
    rw [← slotsFrom_columnsFrom 0 s.slots hs.ordered fun _ _ => Nat.zero_le _, hcolumns,
      slotsFrom_columnsFrom 0 t.slots ht.ordered fun _ _ => Nat.zero_le _]
  obtain ⟨slots, rows⟩ := s
  obtain ⟨slots', rows'⟩ := t
  exact SampleDraw.mk.injEq .. ▸ ⟨hslots, hrows⟩

end SampleDraw

namespace GridBoundary

/-! ## Counting kinks -/

theorem turns_le (l : List GridPoint) : turns l ≤ l.length - 2 := by
  induction l with
  | nil => exact Nat.zero_le _
  | cons p l ih =>
    match l with
    | [] => exact Nat.zero_le _
    | [_] => exact Nat.zero_le _
    | q :: r :: rest =>
      simp only [turns, List.length_cons] at ih ⊢
      split <;> omega

theorem bends_of_turns_eq (l : List GridPoint) (h : turns l = l.length - 2) (p q r : GridPoint)
    (hpqr : [p, q, r] <:+: l) : GridPoint.cross p q r ≠ 0 := by
  induction l with
  | nil => simp at hpqr
  | cons a l ih =>
    match l with
    | [] => exact absurd hpqr.length_le (by simp)
    | [_] => exact absurd hpqr.length_le (by simp)
    | b :: c :: rest =>
      have hle := turns_le (b :: c :: rest)
      simp only [turns, List.length_cons] at h hle ih
      rw [← GridPoint.collinear_eq_false_iff]
      rcases List.infix_cons_iff.mp hpqr with hprefix | hinfix
      · obtain ⟨rfl, rfl, rfl⟩ : p = a ∧ q = b ∧ r = c := by simpa using hprefix
        by_contra hline
        rw [if_pos (by simpa using hline)] at h
        omega
      · rw [GridPoint.collinear_eq_false_iff]
        refine ih ?_ hinfix
        split at h <;> omega

end GridBoundary

/-! ## Accepted draws -/

namespace SampleDraw

open GridBoundary

variable {α : Type} {d : Grid α} {kinks : Nat} {s : SampleDraw} {b : GridBoundary}

theorem IsDraw.columns_le (h : s.IsDraw d.numX d.numY kinks) : ∀ c ∈ s.columns, c ≤ d.numX := by
  rw [columns_eq]
  refine columnsFrom_le 0 d.numX s.slots h.ordered fun c hc => ?_
  rw [Nat.zero_add, h.length_slots]
  exact h.slots_lt c hc

theorem IsDraw.ordered_boundary (h : s.IsDraw d.numX d.numY kinks) :
    (s.boundary d.numX).points.IsChain fun p q => p.col ≤ q.col := by
  have hchain := isChain_between d.numX s.columns
    (by rw [columns_eq]; exact isChain_columnsFrom 0 s.slots h.ordered) h.columns_le
  rw [← map_col_boundary s d.numX h.length_eq, List.isChain_map] at hchain
  exact hchain

theorem IsDraw.nodes_boundary (h : s.IsDraw d.numX d.numY kinks) :
    ∀ p ∈ (s.boundary d.numX).points, p.col ≤ d.numX ∧ p.row ≤ d.numY := by
  intro p hp
  constructor
  · have hcol := List.mem_map_of_mem (f := GridPoint.col) hp
    rw [map_col_boundary s d.numX h.length_eq] at hcol
    simp only [List.cons_append, List.mem_cons, List.mem_append, List.not_mem_nil, or_false] at hcol
    rcases hcol with h0 | hc | hlast
    · omega
    · exact h.columns_le _ hc
    · omega
  · apply h.rows_le
    rw [← map_row_boundary s d.numX h.length_eq]
    exact List.mem_map_of_mem hp

theorem IsDraw.isCanonical (h : s.IsDraw d.numX d.numY kinks) (haccepted : s.Accepted d.numX kinks) :
    (s.boundary d.numX).IsCanonical d kinks := by
  have hcols := map_col_boundary s d.numX h.length_eq
  have hrows := map_row_boundary s d.numX h.length_eq
  have hlen : (s.boundary d.numX).points.length = kinks + 2 := by
    rw [← List.length_map (f := GridPoint.row), hrows, h.length_rows]
  refine ⟨hlen, ?_, ?_, h.ordered_boundary, h.nodes_boundary, ?_⟩
  · intro p hp
    have hfirst := Option.mem_map_of_mem GridPoint.col hp
    rw [← List.head?_map, hcols] at hfirst
    exact (Option.some.inj hfirst).symm
  · intro p hp
    have hlast := Option.mem_map_of_mem GridPoint.col hp
    rw [← List.getLast?_map, hcols, List.getLast?_concat] at hlast
    exact (Option.some.inj hlast).symm
  · apply bends_of_turns_eq
    rw [hlen]
    exact haccepted

/-- The draw that a boundary in canonical form stands for. -/
def ofBoundary (b : GridBoundary) : SampleDraw :=
  ⟨slotsFrom 0 (b.points.map GridPoint.col).tail.dropLast, b.points.map GridPoint.row⟩

theorem columns_ofBoundary (b : GridBoundary) :
    (ofBoundary b).columns = (b.points.map GridPoint.col).tail.dropLast := by
  rw [columns_eq]
  exact columnsFrom_slotsFrom 0 _

theorem cols_eq (h : b.IsCanonical d kinks) :
    b.points.map GridPoint.col = 0 :: (b.points.map GridPoint.col).tail.dropLast ++ [d.numX] := by
  have hlen := h.length_eq
  match hpoints : b.points with
  | [] => simp [hpoints] at hlen
  | [_] => simp [hpoints] at hlen
  | p :: q :: l =>
    have hfirst : p.col = 0 := h.starts p (by simp [hpoints])
    have hlast : ((q :: l).getLast (List.cons_ne_nil _ _)).col = d.numX :=
      h.ends _ (by rw [hpoints, List.getLast?_cons_cons, List.getLast?_eq_some_getLast]; rfl)
    rw [List.map_cons, List.tail_cons, hfirst, ← hlast, List.cons_append, ← List.map_dropLast,
      ← List.map_singleton, ← List.map_append, List.dropLast_concat_getLast]

theorem isDraw_ofBoundary (h : b.IsCanonical d kinks) :
    (ofBoundary b).IsDraw d.numX d.numY kinks := by
  have hcols := cols_eq h
  have hlen : (b.points.map GridPoint.col).tail.dropLast.length = kinks := by
    rw [List.length_dropLast, List.length_tail, List.length_map, h.length_eq]
    omega
  have hmem : ∀ c ∈ (b.points.map GridPoint.col).tail.dropLast, c ≤ d.numX := by
    intro c hc
    obtain ⟨p, hp, rfl⟩ := List.mem_map.mp (List.mem_of_mem_tail (List.mem_of_mem_dropLast hc))
    exact (h.nodes p hp).1
  have hord : (b.points.map GridPoint.col).tail.dropLast.IsChain (· ≤ ·) := by
    have hchain := h.ordered
    rw [← List.isChain_map GridPoint.col (R := (· ≤ ·)), hcols] at hchain
    exact hchain.left_of_append.tail
  refine ⟨isChain_slotsFrom 0 _ hord, ?_, ?_, ?_, ?_⟩
  · intro c hc
    have := slotsFrom_lt 0 d.numX _ hmem c hc
    omega
  · exact (length_slotsFrom 0 _).trans hlen
  · exact (List.length_map _).trans h.length_eq
  · intro y hy
    obtain ⟨p, hp, rfl⟩ := List.mem_map.mp hy
    exact (h.nodes p hp).2

theorem boundary_ofBoundary (h : b.IsCanonical d kinks) : (ofBoundary b).boundary d.numX = b := by
  have hpoints : List.zipWith GridPoint.mk (b.points.map GridPoint.col)
      (b.points.map GridPoint.row) = b.points := by
    rw [List.zipWith_map, List.zipWith_self]
    exact List.map_id _
  rw [boundary, columns_ofBoundary, ← cols_eq h]
  exact congrArg GridBoundary.mk hpoints

theorem exists_accepted_iff (d : Grid α) (kinks : Nat) (b : GridBoundary) :
    (∃ s : SampleDraw, s.IsDraw d.numX d.numY kinks ∧ s.Accepted d.numX kinks ∧
      s.boundary d.numX = b) ↔ b.IsCanonical d kinks := by
  constructor
  · rintro ⟨s, hs, haccepted, rfl⟩
    exact hs.isCanonical haccepted
  · intro h
    refine ⟨ofBoundary b, isDraw_ofBoundary h, ?_, boundary_ofBoundary h⟩
    rw [Accepted, boundary_ofBoundary h]
    exact h.kinks_eq

end SampleDraw

end BoundaryAtlas
