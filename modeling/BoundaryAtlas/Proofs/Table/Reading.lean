import Mathlib.Data.Bool.AllAny
import BoundaryAtlas.Proofs.Agreement
import BoundaryAtlas.Proofs.Table.Library
import BoundaryAtlas.Table.Summary

/-!
# A written table reads back

No cell of a written row has a comma, a newline or a return in it, and the only quotes are the two
of an empty key. So the text is cut where it was joined, the columns have the kinds they were
written with, and every row says what it said before.
-/

namespace BoundaryAtlas

namespace Table

open Decimal (digitChars digitChars_eq_cons isDigit_of_mem_digitChars cutSign_digitChars
  parseDigits?_digitChars)

/-! ## Characters -/

theorem isDecimalDigit_of_isDigit {c : Char} (h : c.isDigit = true) : Text.isDecimalDigit c := by
  have hrange := Char.isDigit_iff_toNat.mp h
  have hblock : (decide (0x30 ≤ c.toNat) && decide (c.toNat < 0x30 + 10)) = true := by
    simpa using ⟨hrange.1, Nat.lt_succ_of_le hrange.2⟩
  rw [Text.isDecimalDigit, Text.zeros, List.any_cons, hblock, Bool.true_or]

theorem isPlain_of_mem_digitChars {n : Nat} : ∀ c ∈ digitChars n, IsPlain c :=
  fun _ hc => isPlain_of_isDigit (isDigit_of_mem_digitChars hc)

theorem isPlain_of_mem_boolCell {b : Bool} : ∀ c ∈ boolCell b, IsPlain c :=
  List.all_iff_forall_prop.mp (by cases b <;> decide)

/-! ## Cells -/

theorem isQuoted_append_comma {l : List Char} (h : ∀ c ∈ l, IsPlain c) (rest : List Char) :
    isQuoted (l ++ ',' :: rest) = false := by
  cases l with
  | nil => rfl
  | cons c l =>
    have := (h c List.mem_cons_self).2.2.1
    simpa [isQuoted] using this

theorem cutCellFrom_append {l : List Char} (h : ∀ c ∈ l, IsPlain c) (found rest : List Char) :
    cutCellFrom false false found (l ++ rest) =
      cutCellFrom false false (l.reverse ++ found) rest := by
  induction l generalizing found with
  | nil => rfl
  | cons c l ih =>
    obtain ⟨hc, hl⟩ := List.forall_mem_cons.mp h
    rw [List.cons_append, cutCellFrom, if_neg (by simp [hc.1]), if_neg (by simp [hc.2.1])]
    simpa using ih hl (c :: found)

theorem cutCell_append {l : List Char} (h : ∀ c ∈ l, IsPlain c) (rest : List Char) :
    cutCell (l ++ ',' :: rest) = ⟨l, .comma, rest⟩ := by
  rw [cutCell, isQuoted_append_comma h, cutCellFrom_append h]
  simp [cutCellFrom]

theorem cutCells_one {l : List Char} (h : ∀ c ∈ l, IsPlain c) (rest : List Char) :
    cutCells 1 (l ++ ',' :: rest) = ⟨[l], .comma, rest⟩ := by
  rw [cutCells, cutCell_append h]
  simp

theorem cutCells_two {l l' : List Char} (h : ∀ c ∈ l, IsPlain c) (h' : ∀ c ∈ l', IsPlain c)
    (rest : List Char) :
    cutCells 2 (l ++ ',' :: (l' ++ ',' :: rest)) = ⟨[l, l'], .comma, rest⟩ := by
  rw [cutCells, cutCell_append h, if_neg (by simp), cutCells_one h']

theorem dropReturn_of_not_mem {cs : List Char} (h : '\r' ∉ cs) : dropReturn cs = cs := by
  rw [dropReturn, if_neg]
  exact fun hlast => h (List.mem_of_getLast? hlast)

/-! ## Lines -/

/-- The text has no newline, but for those between quotes. -/
def IsInLine (l : List Char) : Prop :=
  ∀ found rest, cutLineFrom false found (l ++ rest) = cutLineFrom false (l.reverse ++ found) rest

theorem IsInLine.append {l l' : List Char} (h : IsInLine l) (h' : IsInLine l') :
    IsInLine (l ++ l') := by
  intro found rest
  rw [List.append_assoc, h, h', List.reverse_append, List.append_assoc]

theorem isInLine_of_forall {l : List Char} (h : ∀ c ∈ l, c ≠ '\n' ∧ c ≠ '"') : IsInLine l := by
  intro found rest
  induction l generalizing found with
  | nil => rfl
  | cons c l ih =>
    obtain ⟨hc, hl⟩ := List.forall_mem_cons.mp h
    rw [List.cons_append, cutLineFrom, if_neg (by simp [hc.1])]
    simpa [hc.2] using ih hl (c :: found)

theorem isInLine_of_isPlain {l : List Char} (h : ∀ c ∈ l, IsPlain c) : IsInLine l :=
  isInLine_of_forall fun c hc => ⟨(h c hc).2.1, (h c hc).2.2.1⟩

theorem isInLine_textCell {s : String} (h : ∀ c ∈ s.toList, IsPlain c) : IsInLine (textCell s) := by
  unfold textCell
  split
  · intro found rest
    simp [cutLineFrom]
  · exact isInLine_of_isPlain h

theorem IsInLine.cutLine_append {l : List Char} (h : IsInLine l) (rest : List Char) :
    cutLine (l ++ '\n' :: rest) = (l, rest) := by
  rw [cutLine, h, cutLineFrom]
  simp

/-! ## Rows -/

/-- The line of a row without its end. -/
def Row.text (r : Row) : List Char :=
  digitChars r.kinks ++ ',' :: (boolCell r.label ++ ',' :: textCell r.boundary)

theorem Row.line_append (r : Row) (rest : List Char) : r.line ++ rest = r.text ++ '\n' :: rest := by
  simp [line, text]

namespace Row.IsPlain

variable {r : Row} (h : r.IsPlain)

include h

theorem isInLine_text : IsInLine r.text := by
  have hcomma : IsInLine [','] := isInLine_of_forall (List.all_iff_forall_prop.mp (by decide))
  exact (isInLine_of_isPlain isPlain_of_mem_digitChars).append (hcomma.append
    ((isInLine_of_isPlain isPlain_of_mem_boolCell).append (hcomma.append (isInLine_textCell h))))

theorem return_notMem_text : '\r' ∉ r.text := by
  have hkey : '\r' ∉ textCell r.boundary := by
    unfold textCell
    split
    · decide
    · exact fun hmem => (h _ hmem).2.2.2 rfl
  intro hmem
  simp only [text, List.mem_append, List.mem_cons] at hmem
  rcases hmem with hmem | hmem | hmem | hmem | hmem
  · exact (isPlain_of_mem_digitChars _ hmem).2.2.2 rfl
  · exact absurd hmem (by decide)
  · exact (isPlain_of_mem_boolCell _ hmem).2.2.2 rfl
  · exact absurd hmem (by decide)
  · exact hkey hmem

theorem cells_text (width : Nat) (hwidth : width = 1 ∨ width = 2) :
    lineCells width r.text = [digitChars r.kinks, boolCell r.label].take width := by
  rw [lineCells, dropReturn_of_not_mem h.return_notMem_text, ite_self]
  rcases hwidth with rfl | rfl
  · exact congrArg Cut.front (cutCells_one isPlain_of_mem_digitChars _)
  · exact congrArg Cut.front (cutCells_two isPlain_of_mem_digitChars isPlain_of_mem_boolCell _)

end Row.IsPlain

/-- The rows below the first line. -/
def body (rows : List Row) : List Char := rows.flatMap Row.line

theorem body_cons (r : Row) (rows : List Row) :
    body (r :: rows) = r.text ++ '\n' :: body rows := by
  rw [body, List.flatMap_cons, Row.line_append]
  rfl

theorem body_cons_ne_nil (r : Row) (rows : List Row) : body (r :: rows) ≠ [] := by
  rw [body_cons]
  simp

variable {rows : List Row}

theorem firstLines_body (hrows : ∀ r ∈ rows, r.IsPlain) (count : Nat) :
    firstLines count (body rows) = (rows.take count).map Row.text := by
  have hsucc : ∀ (n : Nat) (cs : List Char), cs ≠ [] →
      firstLines (n + 1) cs = (cutLine cs).1 :: firstLines n (cutLine cs).2 := by
    intro n cs hcs
    cases cs with
    | nil => exact absurd rfl hcs
    | cons => rfl
  induction rows generalizing count with
  | nil => cases count <;> rfl
  | cons r rows ih =>
    obtain ⟨hr, hrows⟩ := List.forall_mem_cons.mp hrows
    cases count with
    | zero => rfl
    | succ count =>
      rw [hsucc _ _ (body_cons_ne_nil r rows), body_cons, hr.isInLine_text.cutLine_append,
        ih hrows, List.take_succ_cons, List.map_cons]

theorem rowFronts_body (hrows : ∀ r ∈ rows, r.IsPlain) :
    rowFronts 1 (body rows) =
      rows.map fun r => ⟨[digitChars r.kinks, boolCell r.label], true⟩ := by
  induction rows with
  | nil =>
    rw [rowFronts]
    rfl
  | cons r rows ih =>
    obtain ⟨hr, hrows⟩ := List.forall_mem_cons.mp hrows
    have hcut : cutCells 2 (body (r :: rows)) =
        ⟨[digitChars r.kinks, boolCell r.label], .comma,
          textCell r.boundary ++ '\n' :: body rows⟩ := by
      rw [body_cons, Row.text, List.append_assoc, List.cons_append, List.append_assoc,
        List.cons_append, cutCells_two isPlain_of_mem_digitChars isPlain_of_mem_boolCell]
    have hreturn : ∀ {l : List Char}, (∀ c ∈ l, IsPlain c) → dropReturn l = l := fun hl =>
      dropReturn_of_not_mem fun hmem => (hl _ hmem).2.2.2 rfl
    rw [rowFronts, if_neg (body_cons_ne_nil r rows), hcut, if_pos rfl,
      (isInLine_textCell hr).cutLine_append, ih hrows, List.map_cons]
    simp [hreturn isPlain_of_mem_digitChars, hreturn isPlain_of_mem_boolCell]

/-! ## Kinds -/

theorem bare_digitChars (n : Nat) : bare (digitChars n) = digitChars n := by
  obtain ⟨c, cs, hcs, hc⟩ := digitChars_eq_cons n
  have := (isPlain_of_isDigit hc).2.2.1
  simp [bare, isQuoted, hcs, this]

theorem looksTruth_digitChars (n : Nat) : looksTruth (digitChars n) = false := by
  obtain ⟨c, cs, hcs, hc⟩ := digitChars_eq_cons n
  have hfold : foldCase c = c := by
    have hlong : c ≠ Char.ofNat 0x17f := by
      rintro rfl
      exact absurd hc (by decide)
    have hupper : ¬(c.val ≥ 'A'.val ∧ c.val ≤ 'Z'.val) := by
      rintro ⟨hA, -⟩
      exact absurd (Nat.le_trans (UInt32.le_iff_toNat_le.mp hA) (Char.isDigit_iff_toNat.mp hc).2)
        (by decide)
    have hlower : c.toLower = c := dif_neg hupper
    rw [foldCase, if_neg hlong, hlower]
  have hnot : c ≠ 't' ∧ c ≠ 'f' := by
    constructor <;> (rintro rfl; exact absurd hc (by decide))
  simp [looksTruth, hcs, hfold, hnot]

theorem looksFloat_digitChars (n : Nat) : looksFloat (digitChars n) = false := by
  have hall : ∀ c ∈ digitChars n, Text.isDecimalDigit c = true := fun c hc =>
    isDecimalDigit_of_isDigit (isDigit_of_mem_digitChars hc)
  obtain ⟨c, cs, hcs, hc⟩ := digitChars_eq_cons n
  have hnot : c ≠ 'i' ∧ c ≠ 'N' := by
    constructor <;> (rintro rfl; exact absurd hc (by decide))
  have hdrop : (digitChars n).dropWhile Text.isDecimalDigit = [] :=
    List.dropWhile_eq_nil_iff.mpr hall
  simp only [looksFloat, cutSign_digitChars, hdrop]
  simp [hcs, hnot, looksExponent]

theorem looksInteger_digitChars (n : Nat) : looksInteger (digitChars n) = true := by
  have hall : (digitChars n).all Text.isDecimalDigit = true :=
    List.all_eq_true.mpr fun c hc => isDecimalDigit_of_isDigit (isDigit_of_mem_digitChars hc)
  have hdigits : areDigits (digitChars n) = true := by
    obtain ⟨c, cs, hcs, -⟩ := digitChars_eq_cons n
    rw [areDigits, hall, hcs]
    rfl
  unfold looksInteger
  split
  · rename_i cs h
    have hminus : '-' ∈ digitChars n := h ▸ List.mem_cons_self
    exact absurd (isDigit_of_mem_digitChars hminus) (by decide)
  · exact hdigits

theorem ofCell?_digitChars (n : Nat) : Kind.ofCell? (digitChars n) = some .integer := by
  have hne : digitChars n ≠ [] := Nat.toDigits_ne_nil
  simp [Kind.ofCell?, bare_digitChars, hne, looksTruth_digitChars, looksFloat_digitChars,
    looksInteger_digitChars]

theorem ofCell?_boolCell (b : Bool) : Kind.ofCell? (boolCell b) = some .bool := by
  cases b <;> decide

theorem common_of_forall {kind : Kind} {l : List Kind} (hne : l ≠ []) (h : ∀ k ∈ l, k = kind) :
    Kind.common l = kind := by
  obtain ⟨k, l, rfl⟩ := List.exists_cons_of_ne_nil hne
  obtain ⟨rfl, hl⟩ := List.forall_mem_cons.mp h
  have hothers : l.filter (fun k' => !k' == k) = [] :=
    List.filter_eq_nil_iff.mpr fun k' hk' => by simp [hl k' hk']
  rw [Kind.common, List.eraseDups_cons, hothers]
  rfl

/-! ## Values -/

theorem integer?_digitChars {n : Nat} (h : n < twoPow 32) :
    integer? (digitChars n) = some (n : Int) := by
  have hpow : twoPow 32 ≤ twoPow 63 := Nat.pow_le_pow_right (by decide) (by decide)
  have hword : isWord n = true := by
    rw [isWord, Bool.and_eq_true, decide_eq_true_eq, decide_eq_true_eq]
    omega
  unfold integer?
  rw [cutSign_digitChars]
  dsimp only
  rw [parseDigits?_digitChars, Option.bind_some]
  simp only [Bool.false_eq_true, if_false]
  rw [if_pos hword]

theorem read?_digitChars {n : Nat} (h : n < twoPow 32) :
    Kind.read? .integer (digitChars n) = some (some (.integer n)) := by
  obtain ⟨c, cs, hcs, hc⟩ := digitChars_eq_cons n
  have hnot : c ≠ ' ' ∧ c ≠ '\t' := by
    constructor <;> (rintro rfl; exact absurd hc (by decide))
  have hdrop : (bare (digitChars n)).dropWhile (fun c => c = ' ' || c = '\t') =
      digitChars n := by
    rw [bare_digitChars, hcs]
    simp [hnot]
  unfold Kind.read? unlessBlank
  dsimp only
  rw [hdrop]
  split
  · rename_i hnil
    rw [hcs] at hnil
    cases hnil
  · rw [integer?_digitChars h]
    rfl

theorem read?_boolCell (b : Bool) : Kind.read? .bool (boolCell b) = some (some (.bool b)) := by
  cases b <;> rfl

/-! ## Sheets -/

/-- The names of the columns that are written. -/
def names : List (List Char) := ["kinks".toList, "label".toList, "boundary".toList]

theorem ofText?_csv (rows : List Row) : Sheet.ofText? (csv rows) = some ⟨names, body rows⟩ := by
  have hskip : skipToHeader (csv rows) = csv rows := rfl
  have hline : IsInLine "kinks,label,boundary".toList :=
    isInLine_of_forall (List.all_iff_forall_prop.mp (by decide))
  have hheader : header = "kinks,label,boundary".toList ++ ['\n'] := by decide
  have hcut : cutLine (csv rows) = ("kinks,label,boundary".toList, body rows) := by
    rw [csv, hheader, List.append_assoc]
    exact hline.cutLine_append (body rows)
  have hnames : (lineCells ("kinks,label,boundary".toList.length + 1)
      "kinks,label,boundary".toList).map bare = names := by decide
  obtain ⟨c, cs, hcs⟩ : ∃ c cs, csv rows = c :: cs := ⟨_, _, rfl⟩
  unfold Sheet.ofText?
  rw [hskip, hcs]
  dsimp only
  rw [← hcs, hcut]
  dsimp only
  rw [hnames]

theorem kindOf_body (hne : rows ≠ []) (hrows : ∀ r ∈ rows, r.IsPlain) {name : List Char}
    {index : Nat} (hindex : names.idxOf name = index) (hlt : index = 0 ∨ index = 1) {kind : Kind}
    (hkind : ∀ r : Row, Kind.ofCell?
      (cellAt index [digitChars r.kinks, boolCell r.label]) = some kind) :
    Sheet.kindOf ⟨names, body rows⟩ name = kind := by
  have hlook : ∀ r ∈ rows, Kind.ofCell? (cellAt index (lineCells (index + 1) r.text)) =
      some kind := by
    intro r hr
    rw [(hrows r hr).cells_text (index + 1) (by omega), ← hkind r]
    rcases hlt with rfl | rfl <;> rfl
  rw [Sheet.kindOf]
  dsimp only
  rw [hindex, firstLines_body hrows, List.filterMap_map]
  apply common_of_forall
  · obtain ⟨r, rows, rfl⟩ := List.exists_cons_of_ne_nil hne
    exact List.ne_nil_of_mem
      (List.mem_filterMap.mpr ⟨r, List.mem_cons_self, hlook r List.mem_cons_self⟩)
  · intro k hk
    obtain ⟨r, hr, hrk⟩ := List.mem_filterMap.mp hk
    exact (Option.some.inj ((hlook r (List.mem_of_mem_take hr)).symm.trans hrk)).symm

theorem rows?_body (hrows : ∀ r ∈ rows, r.IsPlain) :
    Sheet.rows? ⟨names, body rows⟩ 2 1 =
      some (rows.map fun r => [digitChars r.kinks, boolCell r.label]) := by
  have hcolumns : (Sheet.columns ⟨names, body rows⟩).length ≠ 2 := by
    change (numberRepeated [] names).eraseDups.length ≠ 2
    decide
  rw [Sheet.rows?]
  dsimp only
  rw [if_neg fun h => hcolumns h.1, rowFronts_body hrows, List.map_map]
  rfl

theorem scanSheets?_body (hne : rows ≠ []) (hrows : ∀ r ∈ rows, r.IsPlain)
    (hkinks : ∀ r ∈ rows, r.kinks < twoPow 32) :
    scanSheets? ["kinks", "label"] [⟨names, body rows⟩] =
      some ⟨[("kinks", rows.map fun r => some (.integer r.kinks)),
        ("label", rows.map fun r => some (.bool r.label))]⟩ := by
  have hcolumns : Sheet.columns ⟨names, body rows⟩ = names := by
    change (numberRepeated [] names).eraseDups = names
    decide
  have hkinksKind : Sheet.kindOf ⟨names, body rows⟩ "kinks".toList = .integer :=
    kindOf_body hne hrows (by decide) (.inl rfl) fun r => ofCell?_digitChars r.kinks
  have hlabelKind : Sheet.kindOf ⟨names, body rows⟩ "label".toList = .bool :=
    kindOf_body hne hrows (by decide) (.inr rfl) fun r => ofCell?_boolCell r.label
  have hkinksAt : names.idxOf? "kinks".toList = some 0 := by decide
  have hlabelAt : names.idxOf? "label".toList = some 1 := by decide
  have hkinksRead : (rows.map fun r => [digitChars r.kinks, boolCell r.label]).mapM
      (fun cells => Kind.read? .integer (cellAt 0 cells)) =
        some (rows.map fun r => some (.integer r.kinks)) := by
    rw [List.mapM_map]
    exact mapM_eq_some_map fun r hr => read?_digitChars (hkinks r hr)
  have hlabelRead : (rows.map fun r => [digitChars r.kinks, boolCell r.label]).mapM
      (fun cells => Kind.read? .bool (cellAt 1 cells)) =
        some (rows.map fun r => some (.bool r.label)) := by
    rw [List.mapM_map]
    exact mapM_eq_some_map fun r _ => read?_boolCell r.label
  have hread : Sheet.rows? ⟨names, body rows⟩ ["kinks", "label"].length
      (List.foldl max 0 [0, 1]) =
        some (rows.map fun r => [digitChars r.kinks, boolCell r.label]) := rows?_body hrows
  have hjoin : Kind.join .integer .bool = .integer ∧ Kind.join .bool .bool = .bool := ⟨rfl, rfl⟩
  rw [scanSheets?]
  simp only [List.head?_cons, Option.bind_eq_bind, Option.bind_some, Option.pure_def, hcolumns,
    hkinksAt, hlabelAt, List.any_cons, List.any_nil, ne_eq, not_true_eq_false, decide_false, Bool.or_self,
    Bool.false_eq_true, if_false, List.mapM_cons, List.mapM_nil, hread, List.flatten_cons,
    List.flatten_nil, List.append_nil, List.zip_cons_cons, List.zip_nil_right, hkinksKind,
    hlabelKind, List.map_cons, List.map_nil, Kind.joinAll, List.foldr_cons, List.foldr_nil, hjoin,
    hkinksRead, hlabelRead]

end Table

end BoundaryAtlas
