import BoundaryAtlas.Proofs.Grid.Words

/-!
# Overflows

On a grid that does not fit into the words some search overflows after some calls. The boundaries
after which it does end in the last column and the top row.
-/

namespace BoundaryAtlas

namespace Words

open Machine

/-! ## The states of a search -/

variable {α : Type} {d : Grid α} {kinks : Nat} {s : Search}

/-- A search of a grid, somewhere in its run. -/
structure Reached (d : Grid α) (kinks : Nat) (s : Search) : Prop where
  numX : s.numX = d.numX
  numY : s.numY = d.numY
  left : ∀ l ∈ s.left, GridBoundary.IsCanonical d kinks ⟨l⟩
  found : ∀ path, s.position = .after path → GridBoundary.IsCanonical d kinks ⟨path.reverse⟩

theorem reached_new (d : Grid α) (kinks : Nat) : Reached d kinks (Search.new d kinks) where
  numX := rfl
  numY := rfl
  left l hl := by
    rw [← Search.mem_toList_new, Search.toList_new]
    exact List.mem_map_of_mem hl
  found path h := by
    simp only [Search.new] at h
    split at h <;> cases h

theorem Reached.next (h : Reached d kinks s) : Reached d kinks s.next.2 := by
  cases hleft : s.left with
  | nil =>
    rw [s.next_of_left_nil hleft]
    exact ⟨h.numX, h.numY, nofun, nofun⟩
  | cons l after =>
    have hl := h.left
    rw [hleft, List.forall_mem_cons] at hl
    rw [s.next_of_left_cons l after hleft]
    refine ⟨h.numX, h.numY, ?_, ?_⟩
    · rw [s.left_foundAt l after hleft]
      exact hl.2
    · rintro _ ⟨rfl⟩
      rw [List.reverse_reverse]
      exact hl.1

theorem Reached.afterCalls (h : Reached d kinks s) (n : Nat) :
    Reached d kinks (s.afterCalls n) := by
  induction n generalizing s with
  | zero => exact h
  | succ n ih => exact ih h.next

theorem Reached.beginning (h : Reached d kinks s) {path : List GridPoint}
    (hpath : GridBoundary.IsCanonical d kinks ⟨path.reverse⟩) : s.Beginning path := by
  have hbeginning := ((Search.isCanonical_iff d kinks ⟨path.reverse⟩).mp hpath).2.1
  rw [List.reverse_reverse, Search.beginning_iff] at hbeginning
  rw [Search.beginning_iff, h.numX, h.numY]
  exact hbeginning

theorem Reached.next?_canonical (h : Reached d kinks s) {path : List GridPoint}
    (hpath : s.next? = some path) : GridBoundary.IsCanonical d kinks ⟨path.reverse⟩ := by
  have hnext : s.next.1 = some ⟨path.reverse⟩ := by rw [Search.next_eq, hpath]
  cases hleft : s.left with
  | nil =>
    rw [s.next_of_left_nil hleft] at hnext
    cases hnext
  | cons l after =>
    rw [s.next_of_left_cons l after hleft] at hnext
    cases hnext
    exact h.left _ (by rw [hleft]; exact List.mem_cons_self)

theorem Reached.next_isSome (h : Reached d kinks s) (hfits : Fits d.numX d.numY) :
    (words.next s).isSome = true := by
  rw [← h.numX, ← h.numY] at hfits
  have hpath : (words.path s).isSome = true := by
    unfold Machine.path
    cases hposition : s.position with
    | start =>
      have hnil : s.Beginning [] := trivial
      exact fill_isSome hfits hnil fun _ => Nat.le_add_left _ _
    | after path =>
      have hcanonical := h.found path hposition
      have hlength := hcanonical.length_eq
      rw [List.length_reverse] at hlength
      exact resume_isSome hfits (h.beginning hcanonical) (by omega)
    | finished => rfl
  refine isSome_bind hpath fun found hfound => ?_
  cases found with
  | none => rfl
  | some path =>
    have hbeginning := h.beginning (h.next?_canonical (sound_words.path s _ hfound).symm)
    cases path with
    | nil => rfl
    | cons q path =>
      obtain ⟨p, hp⟩ := Option.isSome_iff_exists.mp (nodeAfter_isSome hfits hbeginning.2.col_le)
      simp [hp]

theorem Reached.afterCalls_isSome (h : Reached d kinks s) (hfits : Fits d.numX d.numY) (n : Nat) :
    (words.afterCalls s n).isSome = true := by
  induction n generalizing s with
  | zero => rfl
  | succ n ih =>
    refine isSome_bind (h.next_isSome hfits) fun r hr => ?_
    rw [sound_words.next s r hr]
    exact ih h.next

/-! ## Overflows -/

theorem lt_of_succ_isSome {n : Nat} (h : (words.succ n).isSome = true) : n + 1 < 2 ^ 32 := by
  obtain ⟨_, hn⟩ := Option.isSome_iff_exists.mp h
  exact lt_of_mem_below hn

theorem next_of_calls (h : ∀ n, (words.afterCalls s n).isSome = true) :
    (words.next s).isSome = true ∧ ∀ n, (words.afterCalls s.next.2 n).isSome = true := by
  have hstep : ∀ n, ∃ r ∈ words.next s, (words.afterCalls r.2 n).isSome = true :=
    fun n => exists_of_isSome_bind (h (n + 1))
  constructor
  · obtain ⟨r, hr, -⟩ := hstep 0
    exact Option.isSome_iff_exists.mpr ⟨r, hr⟩
  · intro n
    obtain ⟨r, hr, hn⟩ := hstep n
    rwa [sound_words.next s r hr] at hn

theorem calls_after_calls (h : ∀ n, (words.afterCalls s n).isSome = true) (i : Nat) :
    ∀ n, (words.afterCalls (s.afterCalls i) n).isSome = true := by
  induction i generalizing s with
  | zero => exact h
  | succ i ih => exact ih (next_of_calls h).2

theorem exists_next?_eq (path : List GridPoint)
    (hpath : GridBoundary.IsCanonical d kinks ⟨path.reverse⟩) :
    ∃ i, ((Search.new d kinks).afterCalls i).next? = some path := by
  rw [← Search.mem_toList_new, Search.toList_new, List.mem_map] at hpath
  obtain ⟨l, hl, hpath⟩ := hpath
  obtain rfl : l = path.reverse := by simpa using hpath
  obtain ⟨i, hi⟩ := List.mem_iff_getElem?.mp hl
  have hanswer : ((Search.new d kinks).afterCalls i).next.1 = some ⟨path.reverse⟩ :=
    (Search.answer?_eq _ i).trans (by rw [hi]; rfl)
  refine ⟨i, ?_⟩
  rw [Search.next_eq] at hanswer
  cases hfound : ((Search.new d kinks).afterCalls i).next? with
  | none => simp [hfound] at hanswer
  | some found => simpa [hfound] using hanswer

theorem isSome_after_found (h : ∀ n, (words.afterCalls (Search.new d kinks) n).isSome = true)
    (path : List GridPoint) (hpath : GridBoundary.IsCanonical d kinks ⟨path.reverse⟩) :
    ∃ s, Reached d kinks s ∧ (∀ q ∈ path.head?, (words.nodeAfter s q).isSome = true) ∧
      (words.resume s 0 path).isSome = true := by
  obtain ⟨i, hfound⟩ := exists_next?_eq path hpath
  have hreached := (reached_new d kinks).afterCalls i
  obtain ⟨hnext, hcalls⟩ := next_of_calls (calls_after_calls h i)
  generalize (Search.new d kinks).afterCalls i = t at hfound hreached hnext hcalls
  have hstate : t.next.2 = { t with position := .after path } := by rw [Search.next_eq, hfound]
  refine ⟨t.next.2, hreached.next, ?_, ?_⟩
  · obtain ⟨found, hmem, hnext⟩ := exists_of_isSome_bind hnext
    obtain rfl : found = some path := (sound_words.path t found hmem).trans hfound
    rw [hstate]
    intro q hq
    simp only [Option.mem_def.mp hq] at hnext
    obtain ⟨p, hp, -⟩ := exists_of_isSome_bind hnext
    exact Option.isSome_iff_exists.mpr ⟨p, hp⟩
  · obtain ⟨hnext, -⟩ := next_of_calls hcalls
    obtain ⟨found, hmem, -⟩ := exists_of_isSome_bind hnext
    rw [hstate] at hmem ⊢
    exact Option.isSome_iff_exists.mpr ⟨found, hmem⟩

/-- When the top node of the last column is tried, its row is counted up if it is refused. -/
theorem isSome_top (q : GridPoint) (path : List GridPoint)
    (h : (words.fillFrom s 0 (q :: path) ⟨s.numX, s.numY⟩).isSome = true) :
    (words.staysKink (q :: path) ⟨s.numX, s.numY⟩).isSome = true ∧
      (Search.staysKink (q :: path) ⟨s.numX, s.numY⟩ = false → s.numY + 1 < 2 ^ 32) := by
  have hcount : s.numY + 1 - s.numY = 0 + 1 := by omega
  have h : (words.scan (words.tryNode (words.fill s 0) (q :: path)) s.numY s.numX
      (if s.numX ≤ s.numX then ⟨s.numX, s.numY⟩ else ⟨s.numX, 0⟩)).isSome = true := h
  simp only [scan, le_refl, if_true, hcount] at h
  obtain ⟨_, hrows, -⟩ := exists_of_isSome_bind h
  obtain ⟨t, ht, hrows⟩ := exists_of_isSome_bind (Option.isSome_iff_exists.mpr ⟨_, hrows⟩)
  cases hkink : words.staysKink (q :: path) ⟨s.numX, s.numY⟩ with
  | none => simp [tryNode, hkink] at ht
  | some kink =>
    refine ⟨rfl, fun hfalse => ?_⟩
    obtain rfl : kink = false := (sound_words.staysKink _ _ kink hkink).trans hfalse
    simp only [tryNode, hkink, Option.bind_eq_bind, Option.bind_some] at ht
    cases ht
    obtain ⟨_, hrow, -⟩ := exists_of_isSome_bind hrows
    exact lt_of_succ_isSome (Option.isSome_iff_exists.mpr ⟨_, hrow⟩)

theorem isSome_resume_top (row : Nat) (hrow : row + 1 = s.numY) (q : GridPoint)
    (path : List GridPoint) (h : (words.resume s 0 (⟨s.numX, row⟩ :: q :: path)).isSome = true) :
    (words.staysKink (q :: path) ⟨s.numX, s.numY⟩).isSome = true ∧
      (Search.staysKink (q :: path) ⟨s.numX, s.numY⟩ = false → s.numY + 1 < 2 ^ 32) := by
  rw [resume] at h
  obtain ⟨start, hstart, h⟩ := exists_of_isSome_bind h
  obtain ⟨found, hfound, -⟩ := exists_of_isSome_bind h
  obtain rfl : start = s.nodeAfter ⟨s.numX, row⟩ := sound_words.nodeAfter s _ start hstart
  rw [Search.nodeAfter_eq, if_pos (by simp only; omega), hrow] at hfound
  exact isSome_top q path (Option.isSome_iff_exists.mpr ⟨found, hfound⟩)

theorem lt_of_cross_isSome {p q r : GridPoint} (h : (words.cross p q r).isSome = true) :
    ((q.col : Int) - p.col) * ((r.row : Int) - q.row) < 2 ^ 63 := by
  obtain ⟨a, ha, h⟩ := exists_of_isSome_bind h
  obtain ⟨u, hu, h⟩ := exists_of_isSome_bind h
  obtain ⟨v, hv, -⟩ := exists_of_isSome_bind h
  rw [sound_words.signed _ a ha, sound_words.signed _ u hu] at hv
  exact (bounds_of_mem_signedWord hv).2

/-! ## Boundaries at the edge of the words -/

theorem isCanonical_diagonal (d : Grid α) :
    GridBoundary.IsCanonical d 0 ⟨[⟨0, 0⟩, ⟨d.numX, d.numY⟩]⟩ where
  length_eq := rfl
  starts := by simp
  ends := by simp
  ordered := by simp
  nodes := by simp
  bends p q r h := absurd h.length_le (by simp)

theorem isCanonical_bend (d : Grid α) (p q r : GridPoint) (hp : p.col = 0) (hr : r.col = d.numX)
    (hq : q.col ≤ d.numX) (hrows : p.row ≤ d.numY ∧ q.row ≤ d.numY ∧ r.row ≤ d.numY)
    (hcross : GridPoint.cross p q r ≠ 0) : GridBoundary.IsCanonical d 1 ⟨[p, q, r]⟩ where
  length_eq := rfl
  starts := by simpa using hp
  ends := by simpa using hr
  ordered := by simp; omega
  nodes := by simp; omega
  bends a b c h := by
    have heq := h.eq_of_length rfl
    cases heq
    exact hcross

theorem cols_fit (h : ∀ n, (words.afterCalls (Search.new d 0) n).isSome = true) :
    d.numX + 1 < 2 ^ 32 := by
  obtain ⟨s, hs, hnode, -⟩ :=
    isSome_after_found h [⟨d.numX, d.numY⟩, ⟨0, 0⟩] (isCanonical_diagonal d)
  have hnode := hnode ⟨d.numX, d.numY⟩ rfl
  rw [nodeAfter, if_neg (by rw [hs.numY]; exact lt_irrefl _)] at hnode
  obtain ⟨_, hcol, -⟩ := exists_of_isSome_bind hnode
  exact lt_of_succ_isSome (Option.isSome_iff_exists.mpr ⟨_, hcol⟩)

theorem rows_fit (hx : 1 ≤ d.numX) (hy : 1 ≤ d.numY)
    (h : ∀ n, (words.afterCalls (Search.new d 1) n).isSome = true) : d.numY + 1 < 2 ^ 32 := by
  have hcross : GridPoint.cross ⟨0, 0⟩ ⟨d.numX, d.numY⟩ ⟨d.numX, d.numY - 1⟩ ≠ 0 := by
    have hrow : ((d.numY - 1 : Nat) : Int) - d.numY = -1 := by omega
    simp only [GridPoint.cross, hrow]
    omega
  obtain ⟨s, hs, -, hresume⟩ :=
    isSome_after_found h [⟨d.numX, d.numY - 1⟩, ⟨d.numX, d.numY⟩, ⟨0, 0⟩]
      (isCanonical_bend d _ _ _ rfl rfl le_rfl (by simp only; omega) hcross)
  rw [← hs.numX, ← hs.numY] at hresume
  rw [← hs.numY]
  refine (isSome_resume_top (s.numY - 1) (by rw [hs.numY]; omega) _ _ hresume).2 ?_
  simp [Search.staysKink_cons_cons, GridPoint.collinear, GridPoint.cross]

theorem area_fits (hx : 1 ≤ d.numX) (hcols : d.numX + 1 < 2 ^ 32)
    (h : ∀ n, (words.afterCalls (Search.new d 1) n).isSome = true) : d.numX * d.numY < 2 ^ 63 := by
  by_cases hy : d.numY ≤ 1
  · calc d.numX * d.numY ≤ d.numX * 1 := Nat.mul_le_mul_left _ hy
      _ < 2 ^ 63 := by omega
  · have hcross : GridPoint.cross ⟨0, 0⟩ ⟨d.numX, 0⟩ ⟨d.numX, d.numY - 1⟩ ≠ 0 := by
      simp [GridPoint.cross]
      omega
    obtain ⟨s, hs, -, hresume⟩ :=
      isSome_after_found h [⟨d.numX, d.numY - 1⟩, ⟨d.numX, 0⟩, ⟨0, 0⟩]
        (isCanonical_bend d _ _ _ rfl rfl le_rfl (by simp only; omega) hcross)
    rw [← hs.numX, ← hs.numY] at hresume
    rw [← hs.numX, ← hs.numY]
    have htop := (isSome_resume_top (s.numY - 1) (by rw [hs.numY]; omega) _ _ hresume).1
    obtain ⟨_, hstraight, -⟩ := exists_of_isSome_bind htop
    obtain ⟨z, hz, -⟩ := exists_of_isSome_bind (Option.isSome_iff_exists.mpr ⟨_, hstraight⟩)
    have hlt := lt_of_cross_isSome (Option.isSome_iff_exists.mpr ⟨z, hz⟩)
    simp only [Nat.cast_zero, sub_zero] at hlt
    exact_mod_cast hlt

theorem sizes_of_validate [Scalar α] (hd : d.validate = .ok ()) : 1 ≤ d.numX ∧ 1 ≤ d.numY := by
  unfold Grid.validate at hd
  split at hd
  · cases hd
  split at hd
  · cases hd
  split at hd
  · cases hd
  · omega

/-- **Overflows.** On a valid grid no call of any search overflows exactly if the words have room for
one more column and one more row, and the signed words for the area of the grid. Up to an overflow
the search in words is the search. -/
theorem never_overflows_iff [Scalar α] (d : Grid α) (hd : d.validate = .ok ()) :
    ((∀ kinks ≤ d.kinkLimit, ∀ n, (words.afterCalls (Search.new d kinks) n).isSome = true) ↔
      d.numX + 1 < 2 ^ 32 ∧ d.numY + 1 < 2 ^ 32 ∧ d.numX * d.numY < 2 ^ 63) ∧
    ∀ kinks n, ∀ s ∈ words.afterCalls (Search.new d kinks) n, s = (Search.new d kinks).afterCalls n ∧
      ∀ r ∈ words.next s, r = s.next := by
  obtain ⟨hx, hy⟩ := sizes_of_validate hd
  refine ⟨⟨fun h => ?_, fun h kinks _ n => ?_⟩, fun kinks n s hs => ?_⟩
  · have hone : 1 ≤ d.kinkLimit := by rw [Grid.kinkLimit]; omega
    have hcols := cols_fit (h 0 (Nat.zero_le _))
    exact ⟨hcols, rows_fit hx hy (h 1 hone), area_fits hx hcols (h 1 hone)⟩
  · exact (reached_new d kinks).afterCalls_isSome ⟨h.1, h.2.1, h.2.2⟩ n
  · exact ⟨sound_words.afterCalls _ n s hs, sound_words.next s⟩

/-- A grid with as many columns as there are words. -/
def wide : Grid Float := ⟨1.0, 4294967295, 1.0, 1⟩

/-- A grid that is so large that only its area does not fit. -/
def vast : Grid Float := ⟨1.0, 4294967294, 1.0, 4294967294⟩

theorem validate_vast : vast.validate = .ok () := by decide

theorem never_overflows_iff_vast :
    vast.validate = .ok () ∧ ∃ kinks ≤ vast.kinkLimit, ∃ n,
      words.afterCalls (Search.new vast kinks) n = none := by
  refine ⟨validate_vast, ?_⟩
  have h := mt (never_overflows_iff vast validate_vast).1.mp (by decide)
  simpa using h

/-- The second boundary ends in the last node, after which the column is counted up. -/
theorem overflows_wide :
    wide.validate = .ok () ∧ 0 ≤ wide.kinkLimit ∧
      (words.afterCalls (Search.new wide 0) 1).isSome = true ∧
      words.afterCalls (Search.new wide 0) 2 = none := by
  decide

end Words

end BoundaryAtlas
