import Mathlib.Algebra.Order.Ring.Abs
import Mathlib.Algebra.Order.Ring.Int
import Mathlib.Tactic.Linarith
import Mathlib.Tactic.Ring
import BoundaryAtlas.Proofs.Agreement
import BoundaryAtlas.Proofs.Grid.Enumeration

/-!
# The search in machine words

Where a sound machine does not stop, its search is the search. The machine of words does not stop
as long as its words have room for one more column and one more row, and the signed words for the
area of the grid.
-/

namespace BoundaryAtlas

namespace Machine

/-! ## The search of a sound machine -/

variable {M : Machine Option} {β : Type}

theorem Sound.cross (hM : M.Sound) (p q r : GridPoint) :
    Agrees (M.cross p q r) (ideal.cross p q r).run := by
  unfold Machine.cross
  iterate 6 refine (hM.signed _).bind ?_
  exact hM.signed _

theorem Sound.collinear (hM : M.Sound) (p q r : GridPoint) :
    Agrees (M.collinear p q r) (ideal.collinear p q r).run :=
  (hM.cross p q r).bind (agrees_some _)

theorem Sound.turns (hM : M.Sound) (l : List GridPoint) :
    Agrees (M.turns l) (ideal.turns l).run := by
  fun_induction GridBoundary.turns l with
  | case1 p q r rest ih =>
    unfold Machine.turns
    exact (hM.collinear p q r).bind (ih.bind (agrees_some _))
  | case2 l hl =>
    rw [Machine.turns.eq_def, Machine.turns.eq_def]
    split
    · exact absurd rfl (hl _ _ _ _)
    · exact agrees_some 0

section Scan

variable {f : GridPoint → Option (Trial β)} {g : GridPoint → Id (Trial β)}

theorem Sound.scanRows (hM : M.Sound) (hf : ∀ p, Agrees (f p) (g p).run) (col count row : Nat) :
    Agrees (M.scanRows f col count row) (ideal.scanRows g col count row).run := by
  induction count generalizing row with
  | zero => exact agrees_some none
  | succ count ih =>
    unfold Machine.scanRows
    apply (hf ⟨col, row⟩).bind
    cases (g ⟨col, row⟩).run with
    | found answer => exact agrees_some _
    | refused => exact (hM.succ row).bind (ih (row + 1))
    | deadEnd => exact ih (row + 1)

theorem Sound.scanColumns (hM : M.Sound) (hf : ∀ p, Agrees (f p) (g p).run)
    (numY count col : Nat) :
    Agrees (M.scanColumns f numY count col) (ideal.scanColumns g numY count col).run := by
  induction count generalizing col with
  | zero => exact agrees_some none
  | succ count ih =>
    unfold Machine.scanColumns
    apply (hM.scanRows hf col (numY + 1) 0).bind
    cases (ideal.scanRows g col (numY + 1) 0).run with
    | some answer => exact agrees_some _
    | none => exact (hM.succ col).bind (ih (col + 1))

theorem Sound.scan (hM : M.Sound) (hf : ∀ p, Agrees (f p) (g p).run) (numY hi : Nat)
    (start : GridPoint) : Agrees (M.scan f numY hi start) (ideal.scan g numY hi start).run := by
  unfold Machine.scan
  split
  · apply (hM.scanRows hf _ _ _).bind
    cases (ideal.scanRows g start.col (numY + 1 - start.row) start.row).run with
    | some answer => exact agrees_some _
    | none => exact (hM.succ start.col).bind (hM.scanColumns hf _ _ _)
  · exact agrees_some none

end Scan

section

variable (hM : M.Sound) (s : Search)

include hM

theorem Sound.columns (path : List GridPoint) (rest : Nat) :
    Agrees (M.columns s path rest) (ideal.columns s path rest).run := by
  unfold Machine.columns
  split
  · exact agrees_some _
  · split
    · exact agrees_some _
    · split
      · exact (hM.succ _).bind (agrees_some _)
      · exact agrees_some _

theorem Sound.staysKink (path : List GridPoint) (p : GridPoint) :
    Agrees (M.staysKink path p) (ideal.staysKink path p).run := by
  match path with
  | [] => exact agrees_some true
  | [_] => exact agrees_some true
  | q :: o :: _ => exact (hM.collinear o q p).bind (agrees_some _)

theorem Sound.tryNode {fillRest : List GridPoint → Option (Option (List GridPoint))}
    {g : List GridPoint → Id (Option (List GridPoint))}
    (h : ∀ path, Agrees (fillRest path) (g path).run) (path : List GridPoint) (p : GridPoint) :
    Agrees (M.tryNode fillRest path p) (ideal.tryNode g path p).run := by
  unfold Machine.tryNode
  apply (hM.staysKink path p).bind
  cases (ideal.staysKink path p).run with
  | false => exact agrees_some _
  | true =>
    apply (h (p :: path)).bind
    cases (g (p :: path)).run <;> exact agrees_some _

theorem Sound.fill (rest : Nat) (path : List GridPoint) :
    Agrees (M.fill s rest path) (ideal.fill s rest path).run := by
  induction rest generalizing path with
  | zero => exact agrees_some _
  | succ rest ih =>
    exact (hM.columns s path rest).bind (hM.scan (hM.tryNode ih path) _ _ _)

theorem Sound.fillFrom (rest : Nat) (path : List GridPoint) (start : GridPoint) :
    Agrees (M.fillFrom s rest path start) (ideal.fillFrom s rest path start).run :=
  (hM.columns s path rest).bind (hM.scan (hM.tryNode (hM.fill s rest) path) _ _ _)

theorem Sound.nodeAfter (p : GridPoint) : Agrees (M.nodeAfter s p) (ideal.nodeAfter s p).run := by
  unfold Machine.nodeAfter
  split
  · exact agrees_some _
  · exact (hM.succ p.col).bind (agrees_some _)

theorem Sound.resume (rest : Nat) (path : List GridPoint) :
    Agrees (M.resume s rest path) (ideal.resume s rest path).run := by
  induction path generalizing rest with
  | nil => exact agrees_some none
  | cons q path ih =>
    unfold Machine.resume
    apply (hM.nodeAfter s q).bind
    apply (hM.fillFrom s rest path _).bind
    cases (ideal.fillFrom s rest path (ideal.nodeAfter s q).run).run with
    | some found => exact agrees_some _
    | none => exact ih (rest + 1)

theorem Sound.path : Agrees (M.path s) (ideal.path s).run := by
  unfold Machine.path
  cases s.position with
  | start => exact hM.fill s _ _
  | after path => exact hM.resume s 0 path
  | finished => exact agrees_some none

theorem Sound.next : Agrees (M.next s) (ideal.next s).run := by
  unfold Machine.next
  apply (hM.path s).bind
  cases (ideal.path s).run with
  | none => exact agrees_some _
  | some path =>
    cases path with
    | nil => exact agrees_some _
    | cons q path => exact (hM.nodeAfter s q).bind (agrees_some _)

theorem Sound.afterCalls (n : Nat) :
    Agrees (M.afterCalls s n) (ideal.afterCalls s n).run := by
  induction n generalizing s with
  | zero => exact agrees_some s
  | succ n ih => exact (hM.next s).bind (ih _)

variable {f : β → GridBoundary → Option (Bool × β)} {g : β → GridBoundary → Id (Bool × β)}

theorem Sound.visitUpTo (hf : ∀ state b, Agrees (f state b) (g state b).run) (limit : Nat)
    (state : β) :
    Agrees (M.visitUpTo f limit s state) (ideal.visitUpTo g limit s state).run := by
  induction limit generalizing s state with
  | zero => exact agrees_some _
  | succ limit ih =>
    unfold Machine.visitUpTo
    apply (hM.next s).bind
    obtain ⟨_ | b, after⟩ := (ideal.next s).run
    · exact agrees_some _
    · apply (hf state b).bind
      obtain ⟨_ | _, state'⟩ := (g state b).run
      · exact agrees_some _
      · exact ih after state'

theorem Sound.visit (hf : ∀ state b, Agrees (f state b) (g state b).run) (state : β) :
    Agrees (M.visit f s state) (ideal.visit g s state).run :=
  (hM.visitUpTo s hf _ state).bind (agrees_some _)

theorem Sound.toList : Agrees (M.toList s) (ideal.toList s).run :=
  (hM.visit s (fun _ _ => agrees_some _) _).bind (agrees_some _)

theorem Sound.search {α : Type} (d : Grid α) (kinks : Nat) :
    Agrees (M.search d kinks) (ideal.search d kinks).run :=
  (hM.bytes _).bind (agrees_some _)

end

/-! ## Grids that fit -/

/-- The words have room for one more column and row, and the signed ones for the area. -/
structure Fits (numX numY : Nat) : Prop where
  cols : numX + 1 < 2 ^ 32
  rows : numY + 1 < 2 ^ 32
  area : numX * numY < 2 ^ 63

theorem succ_isSome {n : Nat} (h : n + 1 < 2 ^ 32) : (words.succ n).isSome = true := by
  show (below (twoPow 32) (n + 1)).isSome = true
  rw [below, if_pos (by exact h)]
  rfl

theorem signed_eq {z : Int} (h : |z| < 2 ^ 63) : words.signed z = some z := by
  rw [abs_lt] at h
  exact if_pos ⟨h.1.le, h.2⟩

theorem abs_products_le {numX numY : Nat} {p q r : GridPoint} (hpq : p.col ≤ q.col)
    (hqr : q.col ≤ r.col) (hr : r.col ≤ numX) (hp : p.row ≤ numY) (hq : q.row ≤ numY)
    (hr' : r.row ≤ numY) :
    |((q.col : Int) - p.col) * ((r.row : Int) - q.row)| +
      |((q.row : Int) - p.row) * ((r.col : Int) - q.col)| ≤ numX * numY := by
  have hleft : |(r.row : Int) - q.row| ≤ numY := by rw [abs_le]; omega
  have hright : |(q.row : Int) - p.row| ≤ numY := by rw [abs_le]; omega
  have hcol : (0 : Int) ≤ (q.col : Int) - p.col := by omega
  have hcol' : (0 : Int) ≤ (r.col : Int) - q.col := by omega
  calc |((q.col : Int) - p.col) * ((r.row : Int) - q.row)| +
        |((q.row : Int) - p.row) * ((r.col : Int) - q.col)|
      = ((q.col : Int) - p.col) * |(r.row : Int) - q.row| +
        |(q.row : Int) - p.row| * ((r.col : Int) - q.col) := by
        rw [abs_mul, abs_mul, abs_of_nonneg hcol, abs_of_nonneg hcol']
    _ ≤ ((q.col : Int) - p.col) * numY + numY * ((r.col : Int) - q.col) :=
        add_le_add (mul_le_mul_of_nonneg_left hleft hcol)
          (mul_le_mul_of_nonneg_right hright hcol')
    _ = ((r.col : Int) - p.col) * numY := by ring
    _ ≤ numX * numY := mul_le_mul_of_nonneg_right (by omega) (Int.natCast_nonneg _)

theorem cross_isSome_of_area {p q r : GridPoint} (hp : p.col < 2 ^ 32 ∧ p.row < 2 ^ 32)
    (hq : q.col < 2 ^ 32 ∧ q.row < 2 ^ 32) (hr : r.col < 2 ^ 32 ∧ r.row < 2 ^ 32)
    (harea : |((q.col : Int) - p.col) * ((r.row : Int) - q.row)| +
      |((q.row : Int) - p.row) * ((r.col : Int) - q.col)| < 2 ^ 63) :
    (words.cross p q r).isSome = true := by
  have hdiff := abs_sub (((q.col : Int) - p.col) * ((r.row : Int) - q.row))
    (((q.row : Int) - p.row) * ((r.col : Int) - q.col))
  have hleft := abs_nonneg (((q.col : Int) - p.col) * ((r.row : Int) - q.row))
  have hright := abs_nonneg (((q.row : Int) - p.row) * ((r.col : Int) - q.col))
  unfold cross
  rw [signed_eq (z := (q.col : Int) - p.col) (by rw [abs_lt]; omega),
    signed_eq (z := (r.row : Int) - q.row) (by rw [abs_lt]; omega),
    signed_eq (z := (q.row : Int) - p.row) (by rw [abs_lt]; omega),
    signed_eq (z := (r.col : Int) - q.col) (by rw [abs_lt]; omega)]
  simp only [Option.bind_eq_bind, Option.bind_some]
  rw [signed_eq (by linarith), Option.bind_some, signed_eq (by linarith), Option.bind_some,
    signed_eq (by linarith)]
  rfl

theorem cross_isSome {numX numY : Nat} (h : Fits numX numY) {p q r : GridPoint}
    (hpq : p.col ≤ q.col) (hqr : q.col ≤ r.col) (hr : r.col ≤ numX) (hp : p.row ≤ numY)
    (hq : q.row ≤ numY) (hr' : r.row ≤ numY) : (words.cross p q r).isSome = true := by
  have hcols := h.cols
  have hrows := h.rows
  have harea : (numX : Int) * numY < 2 ^ 63 := by exact_mod_cast h.area
  have hproducts := abs_products_le hpq hqr hr hp hq hr'
  exact cross_isSome_of_area (by omega) (by omega) (by omega) (hproducts.trans_lt harea)

/-! ## No overflow on a grid that fits -/

section Scan

variable {f : GridPoint → Option (Trial β)}

theorem scanRows_isSome {numY col count row : Nat} (hrows : numY + 1 < 2 ^ 32)
    (hcount : row + count ≤ numY + 1)
    (hf : ∀ p ∈ GridPoint.column col count row, (f p).isSome = true) :
    (words.scanRows f col count row).isSome = true := by
  induction count generalizing row with
  | zero => rfl
  | succ count ih =>
    rw [GridPoint.column, List.range'_succ, List.map_cons, List.forall_mem_cons] at hf
    have ih := @ih (row + 1) (by omega) hf.2
    refine isSome_bind hf.1 fun t _ => ?_
    cases t with
    | found answer => rfl
    | refused =>
      refine isSome_bind (succ_isSome (by omega)) fun next hnext => ?_
      obtain rfl : next = row + 1 := sound_words.succ row next hnext
      exact ih
    | deadEnd => exact ih

theorem scanColumns_isSome {numY hi count col : Nat} (hcols : hi + 1 < 2 ^ 32)
    (hrows : numY + 1 < 2 ^ 32) (hcount : col + count ≤ hi + 1)
    (hf : ∀ p, p.row ≤ numY → col ≤ p.col → p.col ≤ hi → (f p).isSome = true) :
    (words.scanColumns f numY count col).isSome = true := by
  induction count generalizing col with
  | zero => rfl
  | succ count ih =>
    have hcolumn : ∀ p ∈ GridPoint.column col (numY + 1) 0, (f p).isSome = true := by
      intro p hp
      rw [GridPoint.mem_column] at hp
      exact hf p (by omega) (by omega) (by omega)
    refine isSome_bind (scanRows_isSome hrows (by omega) hcolumn) fun answer _ => ?_
    cases answer with
    | some answer => rfl
    | none =>
      refine isSome_bind (succ_isSome (by omega)) fun next hnext => ?_
      obtain rfl : next = col + 1 := sound_words.succ col next hnext
      exact ih (by omega) fun p hrow hlo hhi => hf p hrow (by omega) hhi

theorem scan_isSome {numY hi : Nat} {start : GridPoint} (hcols : hi + 1 < 2 ^ 32)
    (hrows : numY + 1 < 2 ^ 32)
    (hf : ∀ p ∈ GridPoint.nodesFrom numY hi start, (f p).isSome = true) :
    (words.scan f numY hi start).isSome = true := by
  simp only [GridPoint.mem_nodesFrom] at hf
  unfold scan
  split
  · have hcolumn : ∀ p ∈ GridPoint.column start.col (numY + 1 - start.row) start.row,
        (f p).isSome = true := by
      intro p hp
      rw [GridPoint.mem_column] at hp
      exact hf p ⟨by omega, by omega, by omega⟩
    have hcount : start.row + (numY + 1 - start.row) ≤ numY + 1 ∨ numY + 1 - start.row = 0 := by
      omega
    have hfirst : (words.scanRows f start.col (numY + 1 - start.row) start.row).isSome = true := by
      rcases hcount with hcount | hcount
      · exact scanRows_isSome hrows hcount hcolumn
      · rw [hcount]
        rfl
    refine isSome_bind hfirst fun answer _ => ?_
    cases answer with
    | some answer => rfl
    | none =>
      refine isSome_bind (succ_isSome (by omega)) fun next hnext => ?_
      obtain rfl : next = start.col + 1 := sound_words.succ start.col next hnext
      exact scanColumns_isSome hcols hrows (by omega) fun p hrow hlo hhi =>
        hf p ⟨hrow, hhi, by omega⟩
  · rfl

end Scan

variable {s : Search}

theorem columns_isSome (h : Fits s.numX s.numY) {path : List GridPoint} (hpath : s.Beginning path)
    (rest : Nat) : (words.columns s path rest).isSome = true := by
  have hcols := h.cols
  cases path with
  | nil => rfl
  | cons q before =>
    have hq := hpath.2.col_le
    simp only [columns]
    split
    · rfl
    · split
      · exact isSome_bind (succ_isSome (by omega)) fun _ _ => rfl
      · rfl

theorem le_columns_lo {path : List GridPoint} (rest : Nat) (hpath : s.Beginning path) :
    ∀ q ∈ path.head?, q.col ≤ (s.columns path rest).lo := by
  cases path with
  | nil => simp
  | cons q before =>
    have hq := hpath.2.col_le
    rintro _ ⟨rfl⟩
    rw [Search.columns_cons]
    split
    · exact hq
    · split
      · exact Nat.le_succ _
      · exact le_rfl

theorem staysKink_isSome (h : Fits s.numX s.numY) {path : List GridPoint}
    (hpath : s.Beginning path) {p : GridPoint} (hcol : p.col ≤ s.numX) (hrow : p.row ≤ s.numY)
    (hle : ∀ q ∈ path.head?, q.col ≤ p.col) : (words.staysKink path p).isSome = true := by
  match path with
  | [] => rfl
  | [_] => rfl
  | q :: o :: _ =>
    obtain ⟨⟨-, ho⟩, hq⟩ := hpath
    have hcross := cross_isSome h (hq.ordered o rfl) (hle q rfl) hcol ho.row_le hq.row_le hrow
    exact isSome_bind (isSome_bind hcross fun _ _ => rfl) fun _ _ => rfl

theorem tryNode_isSome (h : Fits s.numX s.numY) {rest : Nat}
    (hfill : ∀ p path, s.Beginning (p :: path) → (words.fill s rest (p :: path)).isSome = true)
    {path : List GridPoint} (hpath : s.Beginning path) (hrest : path = [] → rest ≠ 0)
    {start p : GridPoint}
    (hp : p ∈ GridPoint.nodesFrom s.numY (s.columns path rest).hi
      (if (s.columns path rest).lo ≤ start.col then start else ⟨(s.columns path rest).lo, 0⟩)) :
    (words.tryNode (words.fill s rest) path p).isSome = true := by
  have hnode := (GridPoint.mem_nodesFrom _ _ _ _).mp hp
  have hcol := hnode.2.1.trans (s.columns_hi_le path rest)
  have hstart : (s.columns path rest).lo ≤ (if (s.columns path rest).lo ≤ start.col then start
      else (⟨(s.columns path rest).lo, 0⟩ : GridPoint)).col := by
    split
    · assumption
    · exact le_rfl
  have hlo : (s.columns path rest).lo ≤ p.col := by omega
  have hstays := staysKink_isSome h hpath hcol hnode.1 fun q hq =>
    (le_columns_lo rest hpath q hq).trans hlo
  refine isSome_bind hstays fun kink hkink => ?_
  cases kink with
  | false => rfl
  | true =>
    have hchoice : p ∈ s.choices rest path ⟨0, 0⟩ := (s.mem_choices rest path _ p).mpr
      ⟨(sound_words.staysKink path p true hkink).symm, hnode.1, hlo, hnode.2.1, by simp only; omega⟩
    have hleads := (s.mem_choices_iff_leads rest path p hpath hrest).mp hchoice
    refine isSome_bind (hfill p path ⟨hpath, hleads.1⟩) fun found _ => ?_
    cases found <;> rfl

theorem fillFrom_isSome_of_fill (h : Fits s.numX s.numY) {rest : Nat}
    (hfill : ∀ p path, s.Beginning (p :: path) → (words.fill s rest (p :: path)).isSome = true)
    {path : List GridPoint} (hpath : s.Beginning path) (hrest : path = [] → rest ≠ 0)
    (start : GridPoint) : (words.fillFrom s rest path start).isSome = true := by
  have hhi := s.columns_hi_le path rest
  have hcols := h.cols
  refine isSome_bind (columns_isSome h hpath rest) fun cols hcolumns => ?_
  obtain rfl : cols = s.columns path rest := sound_words.columns s path rest cols hcolumns
  exact scan_isSome (by omega) h.rows fun p hp => tryNode_isSome h hfill hpath hrest hp

theorem fill_succ (rest : Nat) (path : List GridPoint) :
    words.fill s (rest + 1) path = words.fillFrom s rest path ⟨0, 0⟩ := by
  have hstart : ∀ lo : Nat, (if lo ≤ 0 then (⟨0, 0⟩ : GridPoint) else ⟨lo, 0⟩) = ⟨lo, 0⟩ := by
    intro lo
    split
    · rename_i hlo
      rw [Nat.le_zero.mp hlo]
    · rfl
  rw [fill, fillFrom]
  simp only [hstart]

theorem fill_isSome (h : Fits s.numX s.numY) {rest : Nat} {path : List GridPoint}
    (hpath : s.Beginning path) (hrest : path = [] → 2 ≤ rest) :
    (words.fill s rest path).isSome = true := by
  induction rest generalizing path with
  | zero => rfl
  | succ rest ih =>
    rw [fill_succ]
    refine fillFrom_isSome_of_fill h (fun p path hp => ih hp (by simp)) hpath ?_ _
    intro hnil
    have := hrest hnil
    omega

theorem nodeAfter_isSome (h : Fits s.numX s.numY) {p : GridPoint} (hp : p.col ≤ s.numX) :
    (words.nodeAfter s p).isSome = true := by
  have hcols := h.cols
  unfold nodeAfter
  split
  · rfl
  · exact isSome_bind (succ_isSome (by omega)) fun _ _ => rfl

theorem resume_isSome (h : Fits s.numX s.numY) {rest : Nat} {path : List GridPoint}
    (hpath : s.Beginning path) (hrest : 2 ≤ path.length + rest) :
    (words.resume s rest path).isSome = true := by
  induction path generalizing rest with
  | nil => rfl
  | cons q path ih =>
    have hq := hpath.2.col_le
    refine isSome_bind (nodeAfter_isSome h hq) fun start _ => ?_
    have hrest' : path = [] → rest ≠ 0 := by
      rintro rfl
      simp only [List.length_cons, List.length_nil] at hrest
      omega
    have hfill : (words.fillFrom s rest path start).isSome = true := fillFrom_isSome_of_fill h
      (fun p path hp => fill_isSome h hp (by simp)) hpath.1 hrest' start
    refine isSome_bind hfill fun found _ => ?_
    cases found with
    | some found => rfl
    | none => exact ih hpath.1 (by simp only [List.length_cons] at hrest; omega)

end Machine

end BoundaryAtlas
