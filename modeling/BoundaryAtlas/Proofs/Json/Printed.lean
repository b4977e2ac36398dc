import Mathlib.Data.List.Basic
import BoundaryAtlas.Proofs.Decimal.Digits
import BoundaryAtlas.Json.Printer
import BoundaryAtlas.Json.Reader

/-!
# Printed values read back

A number ends where no digit, point or exponent follows, and a name ends at its quote. So a value is
found at the front of a longer text, and lists and objects follow from their items.
-/

namespace BoundaryAtlas.Json

/-! ## Numbers -/

/-- What follows cannot belong to a number. -/
def EndsNumber (rest : List Char) : Prop :=
  ∀ c ∈ rest.head?, c.isDigit = false ∧ c ≠ '.' ∧ c ≠ 'e' ∧ c ≠ 'E'

theorem endsNumber_nil : EndsNumber [] := by simp [EndsNumber]

theorem endsNumber_cons {c : Char} (h : c.isDigit = false ∧ c ≠ '.' ∧ c ≠ 'e' ∧ c ≠ 'E')
    (rest : List Char) : EndsNumber (c :: rest) := by
  intro c' hc'
  obtain rfl : c = c' := by simpa using hc'
  exact h

section Numbers

variable {cs found left rest : List Char} (hrest : EndsNumber rest)

include hrest

theorem takeDigits_append (h : takeDigits cs = some (found, left)) :
    takeDigits (cs ++ rest) = some (found, left ++ rest) := by
  have hsplit : ∀ l : List Char, (l ++ rest).takeWhile Char.isDigit = l.takeWhile Char.isDigit ∧
      (l ++ rest).dropWhile Char.isDigit = l.dropWhile Char.isDigit ++ rest := by
    intro l
    induction l with
    | nil =>
      cases rest with
      | nil => exact ⟨rfl, rfl⟩
      | cons c rest => simp [(hrest c rfl).1]
    | cons c l ih =>
      cases hc : c.isDigit with
      | true => simp [hc, ih]
      | false => simp [hc]
  unfold takeDigits at h ⊢
  rw [(hsplit cs).1, (hsplit cs).2]
  split at h
  · cases h
  · rename_i hne
    obtain ⟨rfl, rfl⟩ := Prod.mk.inj (Option.some.inj h)
    rfl

theorem takeWhole_append (h : takeWhole cs = some (found, left)) :
    takeWhole (cs ++ rest) = some (found, left ++ rest) := by
  unfold takeWhole at h ⊢
  split at h
  · cases h
  · rename_i hzero
    rw [takeDigits_append hrest h]
    split
    · rename_i heq
      obtain ⟨rfl, rfl⟩ := Prod.mk.inj (Option.some.inj heq)
      exact absurd h (hzero _ _ _)
    · rfl

theorem takeFraction_append (h : takeFraction cs = some (found, left)) :
    takeFraction (cs ++ rest) = some (found, left ++ rest) := by
  unfold takeFraction at h
  split at h
  · rename_i cs
    obtain ⟨⟨ds, ds'⟩, hds, heq⟩ := Option.map_eq_some_iff.mp h
    obtain ⟨rfl, rfl⟩ := Prod.mk.inj heq
    rw [List.cons_append, takeFraction, takeDigits_append hrest hds]
    rfl
  · rename_i hpoint
    obtain ⟨rfl, rfl⟩ := Prod.mk.inj (Option.some.inj h)
    unfold takeFraction
    split
    · rename_i cs' heq
      cases cs with
      | nil =>
        rw [List.nil_append] at heq
        exact absurd rfl (hrest '.' (by rw [heq]; rfl)).2.1
      | cons c cs =>
        obtain ⟨rfl, -⟩ := List.cons.inj heq
        exact absurd rfl (hpoint cs)
    · rfl

omit hrest in
theorem takeSign_append (h : cs ≠ []) :
    takeSign (cs ++ rest) = ((takeSign cs).1, (takeSign cs).2 ++ rest) := by
  obtain ⟨c, cs, rfl⟩ := List.exists_cons_of_ne_nil h
  rw [List.cons_append]
  by_cases hplus : c = '+'
  · rw [hplus]
    rfl
  · by_cases hminus : c = '-'
    · rw [hminus]
      rfl
    · simp [takeSign, hplus, hminus]

theorem takeExponent_append (h : takeExponent cs = some (found, left)) :
    takeExponent (cs ++ rest) = some (found, left ++ rest) := by
  cases cs with
  | nil =>
    obtain ⟨rfl, rfl⟩ := Prod.mk.inj (Option.some.inj h)
    cases rest with
    | nil => rfl
    | cons c rest =>
      have hc := (hrest c rfl).2.2
      rw [List.nil_append, takeExponent, if_neg (by simp [hc])]
  | cons c cs =>
    rw [takeExponent] at h
    rw [List.cons_append, takeExponent]
    split at h
    · rename_i he
      obtain ⟨sign, tail, hsign⟩ : ∃ sign tail, takeSign cs = (sign, tail) := ⟨_, _, rfl⟩
      rw [hsign] at h
      obtain ⟨⟨ds, after⟩, hds, heq⟩ := Option.map_eq_some_iff.mp h
      obtain ⟨rfl, rfl⟩ := Prod.mk.inj heq
      have hne : cs ≠ [] := by
        rintro rfl
        obtain ⟨rfl, rfl⟩ := Prod.mk.inj hsign
        cases hds
      rw [if_pos he, takeSign_append hne, hsign]
      dsimp only
      rw [takeDigits_append hrest hds]
      rfl
    · rename_i he
      rw [if_neg he]
      obtain ⟨rfl, rfl⟩ := Prod.mk.inj (Option.some.inj h)
      rfl

theorem takeMagnitude_append (h : takeMagnitude cs = some (found, left)) :
    takeMagnitude (cs ++ rest) = some (found, left ++ rest) := by
  obtain ⟨⟨whole, cs⟩, hwhole, h⟩ := Option.bind_eq_some_iff.mp h
  obtain ⟨⟨fraction, cs⟩, hfraction, h⟩ := Option.bind_eq_some_iff.mp h
  obtain ⟨⟨exponent, cs⟩, hexponent, h⟩ := Option.bind_eq_some_iff.mp h
  obtain ⟨rfl, rfl⟩ := Prod.mk.inj (Option.some.inj h)
  refine Option.bind_eq_some_iff.mpr ⟨_, takeWhole_append hrest hwhole, ?_⟩
  refine Option.bind_eq_some_iff.mpr ⟨_, takeFraction_append hrest hfraction, ?_⟩
  exact Option.bind_eq_some_iff.mpr ⟨_, takeExponent_append hrest hexponent, rfl⟩

theorem takeNumber_append (h : takeNumber cs = some (found, left)) :
    takeNumber (cs ++ rest) = some (found, left ++ rest) := by
  unfold takeNumber at h
  split at h
  · obtain ⟨⟨spelling, after⟩, hspelling, heq⟩ := Option.map_eq_some_iff.mp h
    obtain ⟨rfl, rfl⟩ := Prod.mk.inj heq
    rw [List.cons_append, takeNumber, takeMagnitude_append hrest hspelling]
    rfl
  · rename_i hminus
    unfold takeNumber
    split
    · rename_i cs' heq
      cases cs with
      | nil => cases h
      | cons c cs =>
        obtain ⟨rfl, -⟩ := List.cons.inj heq
        exact absurd rfl (hminus cs)
    · exact takeMagnitude_append hrest h

end Numbers

/-! ## Spellings -/

/-- The text is one number from its first character to its last. -/
def IsSpelling (cs : List Char) : Prop := takeNumber cs = some (cs, [])

theorem takeDigits_of_forall {cs : List Char} (hne : cs ≠ []) (h : cs.all Char.isDigit = true) :
    takeDigits cs = some (cs, []) := by
  have htake : cs.takeWhile Char.isDigit = cs :=
    List.takeWhile_eq_self_iff.mpr (List.all_eq_true.mp h)
  have hdrop : cs.dropWhile Char.isDigit = [] :=
    List.dropWhile_eq_nil_iff.mpr (List.all_eq_true.mp h)
  unfold takeDigits
  rw [htake, hdrop]
  split
  · exact absurd rfl hne
  · rfl

theorem isSpelling_digitChars (n : Nat) : IsSpelling (Decimal.digitChars n) := by
  obtain ⟨c, cs, hcs, hc⟩ := Decimal.digitChars_eq_cons n
  have hdigits : takeDigits (Decimal.digitChars n) = some (Decimal.digitChars n, []) :=
    takeDigits_of_forall (hcs ▸ List.cons_ne_nil c cs) (Decimal.all_isDigit_digitChars n)
  have hwhole : takeWhole (Decimal.digitChars n) = some (Decimal.digitChars n, []) := by
    unfold takeWhole
    split
    · rename_i heq
      rw [hdigits] at heq
      obtain ⟨hzero, -⟩ := Prod.mk.inj (Option.some.inj heq)
      have hpos : 0 < n := by
        rcases Nat.eq_zero_or_pos n with rfl | hpos
        · cases hzero
        · exact hpos
      exact absurd (congrArg List.head? hzero) (Decimal.head?_digitChars_ne_zero hpos)
    · exact hdigits
  have hmagnitude : takeMagnitude (Decimal.digitChars n) = some (Decimal.digitChars n, []) := by
    refine Option.bind_eq_some_iff.mpr ⟨_, hwhole, ?_⟩
    exact congrArg (fun l => some (l, [])) (by simp)
  rw [IsSpelling, takeNumber]
  · exact hmagnitude
  · rintro cs' heq
    have hminus : '-' ∈ Decimal.digitChars n := heq ▸ List.mem_cons_self
    exact absurd (Decimal.isDigit_of_mem_digitChars hminus) (by decide)

theorem head_of_takeNumber {cs found left : List Char} (h : takeNumber cs = some (found, left)) :
    ∃ c l, cs = c :: l ∧ (c = '-' ∨ c.isDigit = true) := by
  cases cs with
  | nil => cases h
  | cons c l =>
    refine ⟨c, l, rfl, ?_⟩
    by_contra hc
    obtain ⟨hminus, hdigit⟩ := not_or.mp hc
    have hnone : takeWhole (c :: l) = none := by simp [takeWhole, takeDigits, hdigit]
    rw [takeNumber, takeMagnitude, hnone] at h
    · cases h
    · rintro cs' heq
      exact hminus (List.cons.inj heq).1

/-! ## Names -/

/-- A character that is written without an escape. -/
def IsPlain (c : Char) : Prop := c ≠ '"' ∧ c ≠ '\\' ∧ 0x20 ≤ c.toNat

instance (c : Char) : Decidable (IsPlain c) :=
  inferInstanceAs (Decidable (c ≠ '"' ∧ c ≠ '\\' ∧ 0x20 ≤ c.toNat))

theorem takeString_cons {c : Char} (h : IsPlain c) (found : List (Option Char)) (cs : List Char) :
    takeString found (c :: cs) = takeString (some c :: found) cs := by
  obtain ⟨hquote, hslash, hcontrol⟩ := h
  rw [takeString, if_neg]
  · rintro (hc | hc)
    · exact hslash hc
    · omega
  · exact hquote
  · exact fun _ _ _ _ _ _ _ _ _ hc => absurd hc hslash
  · exact fun _ _ _ _ _ hc => absurd hc hslash
  · exact fun _ _ hc => absurd hc hslash

theorem takeString_plain {cs : List Char} (h : ∀ c ∈ cs, IsPlain c) (found : List (Option Char))
    (rest : List Char) :
    takeString found (cs ++ '"' :: rest) = some ((cs.map some).reverse ++ found, rest) := by
  induction cs generalizing found with
  | nil => rfl
  | cons c cs ih =>
    obtain ⟨hc, hcs⟩ := List.forall_mem_cons.mp h
    rw [List.cons_append, takeString_cons hc, ih hcs]
    simp

theorem escaped_plain {c : Char} (h : IsPlain c) : escaped c = [c] := by
  obtain ⟨hquote, hslash, hcontrol⟩ := h
  simp only [escaped, hquote, hslash, if_false]
  rw [if_neg (by omega), if_neg (by omega), if_neg (by omega), if_neg (by omega),
    if_neg (by omega), if_neg (by omega)]

theorem quoted_plain {name : String} (h : ∀ c ∈ name.toList, IsPlain c) :
    quoted name = '"' :: (name.toList ++ ['"']) := by
  rw [quoted, List.flatMap_congr fun c hc => escaped_plain (h c hc), List.flatMap_singleton']
  rfl

theorem nameOf_plain {name : String} (h : ∀ c ∈ name.toList, IsPlain c) (rest : List Char) :
    nameOf (name.toList ++ '"' :: rest) (name.toList.map some).reverse = .plain name := by
  have hquote : (name.toList ++ '"' :: rest).takeWhile (· ≠ '"') = name.toList := by
    rw [List.takeWhile_append_of_pos fun c hc => decide_eq_true (h c hc).1]
    simp
  have hescape : hasEscape (name.toList ++ '"' :: rest) = false := by
    rw [hasEscape, hquote]
    simpa using fun hslash => (h _ hslash).2.1 rfl
  have htext : textOf (name.toList.map some).reverse = some name := by
    have hall : name.toList.mapM (id ∘ some) = some (name.toList.map id) :=
      mapM_eq_some_map fun _ _ => rfl
    rw [textOf, List.reverse_reverse, List.mapM_map, hall, List.map_id, Option.map_some,
      String.ofList_toList]
  rw [nameOf, hescape, htext]
  rfl

theorem skipBlanks_cons {c : Char} (h : isBlank c = false) (cs : List Char) :
    skipBlanks (c :: cs) = c :: cs := by
  simp [skipBlanks, h]

theorem takeName_plain {name : String} (h : ∀ c ∈ name.toList, IsPlain c) (rest : List Char) :
    takeName (nameChars (.plain name) ++ ':' :: rest) = some (.plain name, rest) := by
  have hchars : nameChars (.plain name) ++ ':' :: rest =
      '"' :: (name.toList ++ '"' :: ':' :: rest) := by
    rw [nameChars, FieldName.text?, Option.getD_some, quoted_plain h]
    simp
  simp only [hchars, takeName, skipBlanks_cons (c := '"') rfl, skipBlanks_cons (c := ':') rfl,
    takeString_plain h, List.append_nil, nameOf_plain h]

/-! ## Values -/

theorem skipBlanks_gap (style : Style) (depth : Nat) (cs : List Char) :
    skipBlanks (style.gap depth ++ cs) = skipBlanks cs := by
  cases style with
  | compact => rfl
  | pretty =>
    refine List.dropWhile_append_of_pos fun c hc => ?_
    rcases List.mem_cons.mp hc with rfl | hc
    · rfl
    · rw [List.eq_of_mem_replicate hc]
      rfl

section Skips

variable {cs cs' : List Char} (h : skipBlanks cs = skipBlanks cs') (fuel : Nat)

include h

theorem takeValue_congr : takeValue fuel cs = takeValue fuel cs' := by
  cases fuel with
  | zero => rfl
  | succ fuel => simp only [takeValue, h]

theorem takeItems_congr : takeItems fuel cs = takeItems fuel cs' := by
  cases fuel with
  | zero => rfl
  | succ fuel => simp only [takeItems, takeValue_congr h]

theorem takeFields_congr : takeFields fuel cs = takeFields fuel cs' := by
  cases fuel with
  | zero => rfl
  | succ fuel =>
    have hname : takeName cs = takeName cs' := by simp only [takeName, h]
    simp only [takeFields, hname]

end Skips

/-- The printed value is read from the front of a text. -/
structure IsReadable (j : Json) : Prop where
  begins : ∀ style depth, ∃ c l, chars style depth j = c :: l ∧ isBlank c = false ∧ c ≠ ']'
  reads : ∀ style depth fuel rest, EndsNumber rest → (chars style depth j).length ≤ fuel →
    takeValue fuel (chars style depth j ++ rest) = some (j, rest)

theorem ne_of_isDigit {c c' : Char} (h : c = '-' ∨ c.isDigit = true) (hminus : c' ≠ '-')
    (hdigit : c'.isDigit = false) : c ≠ c' := by
  rintro rfl
  rcases h with rfl | h
  · exact hminus rfl
  · rw [hdigit] at h
    cases h

theorem isBlank_of_isDigit {c : Char} (h : c = '-' ∨ c.isDigit = true) : isBlank c = false := by
  simp only [isBlank, Bool.or_eq_false_iff, decide_eq_false_iff_not]
  exact ⟨⟨⟨ne_of_isDigit h (by decide) rfl, ne_of_isDigit h (by decide) rfl⟩,
    ne_of_isDigit h (by decide) rfl⟩, ne_of_isDigit h (by decide) rfl⟩

theorem takeValue_number {c : Char} (hc : c = '-' ∨ c.isDigit = true) {l found left : List Char}
    (h : takeNumber (c :: l) = some (found, left)) (fuel : Nat) :
    takeValue (fuel + 1) (c :: l) = some (.number found, left) := by
  have hmark : ∀ {c' : Char} {l' : List Char}, c' ≠ '-' → c'.isDigit = false →
      c :: l ≠ c' :: l' := fun hminus hdigit heq =>
    ne_of_isDigit hc hminus hdigit (List.cons.inj heq).1
  rw [takeValue, skipBlanks_cons (isBlank_of_isDigit hc)]
  split
  case h_8 =>
    rw [h]
    rfl
  case h_1 heq => cases heq
  all_goals
    rename_i heq
    exact absurd heq (hmark (by decide) rfl)

theorem takeValue_list {c : Char} {cs l : List Char} (h : skipBlanks cs = c :: l)
    (hblank : isBlank c = false) (hc : c ≠ ']') {fuel : Nat} {items : List Json} {rest : List Char}
    (hitems : takeItems fuel cs = some (items, rest)) :
    takeValue (fuel + 1) ('[' :: cs) = some (.list items, rest) := by
  have hskip : skipBlanks (c :: l) = skipBlanks cs := by rw [skipBlanks_cons hblank, h]
  simp only [takeValue, skipBlanks_cons (c := '[') rfl, h]
  split
  · rename_i heq
    exact absurd (List.cons.inj heq).1 hc
  · rw [takeItems_congr hskip, hitems]
    rfl

theorem takeValue_object {c : Char} {cs l : List Char} (h : skipBlanks cs = c :: l)
    (hblank : isBlank c = false) (hc : c ≠ '}') {fuel : Nat} {fields : List (FieldName × Json)}
    {rest : List Char} (hfields : takeFields fuel cs = some (fields, rest)) :
    takeValue (fuel + 1) ('{' :: cs) = some (.object fields, rest) := by
  have hskip : skipBlanks (c :: l) = skipBlanks cs := by rw [skipBlanks_cons hblank, h]
  simp only [takeValue, skipBlanks_cons (c := '{') rfl, h]
  split
  · rename_i heq
    exact absurd (List.cons.inj heq).1 hc
  · rw [takeFields_congr hskip, hfields]
    rfl

namespace IsReadable

theorem bool (b : Bool) : IsReadable (.bool b) where
  begins style depth := by cases b <;> exact ⟨_, _, rfl, by decide, by decide⟩
  reads style depth fuel rest _ hfuel := by
    cases fuel with
    | zero => cases b <;> simp [chars] at hfuel
    | succ fuel => cases b <;> rfl

theorem number {spelling : List Char} (h : IsSpelling spelling) : IsReadable (.number spelling) := by
  obtain ⟨c, l, rfl, hc⟩ := head_of_takeNumber h
  refine ⟨fun style depth => ⟨c, l, rfl, isBlank_of_isDigit hc, ?_⟩,
    fun style depth fuel rest hrest hfuel => ?_⟩
  · exact ne_of_isDigit hc (by decide) rfl
  · cases fuel with
    | zero => cases hfuel
    | succ fuel => exact takeValue_number hc (takeNumber_append hrest h) fuel

theorem ofNat (n : Nat) : IsReadable (.ofNat n) := number (isSpelling_digitChars n)

section Lists

variable (style : Style) (depth : Nat)

theorem endsNumber_gap {c : Char} (hc : c = ']' ∨ c = '}') (rest : List Char) :
    EndsNumber (style.gap depth ++ c :: rest) := by
  cases style with
  | compact => rcases hc with rfl | rfl <;> exact endsNumber_cons (by decide) _
  | pretty => exact endsNumber_cons (by decide) _

theorem takeItems_chars {items : List Json} {item : Json} (hitem : IsReadable item)
    (hitems : ∀ j ∈ items, IsReadable j) (fuel : Nat) (rest : List Char)
    (hfuel : (chars style (depth + 1) item).length + (itemsChars style depth items).length < fuel) :
    takeItems fuel (chars style (depth + 1) item ++ (itemsChars style depth items ++ ']' :: rest)) =
      some (item :: items, rest) := by
  obtain ⟨fuel, rfl⟩ : ∃ f, fuel = f + 1 := ⟨fuel - 1, by omega⟩
  induction items generalizing item fuel with
  | nil =>
    have hread := hitem.reads style (depth + 1) fuel _ (endsNumber_gap style depth (.inl rfl) rest)
      (by omega)
    simp only [takeItems, itemsChars, hread, skipBlanks_gap, skipBlanks_cons (c := ']') rfl]
  | cons next items ih =>
    obtain ⟨hnext, hitems⟩ := List.forall_mem_cons.mp hitems
    have hchars : itemsChars style depth (next :: items) ++ ']' :: rest =
        ',' :: (style.gap (depth + 1) ++ (chars style (depth + 1) next ++
          (itemsChars style depth items ++ ']' :: rest))) := by
      simp [itemsChars]
    have hlength : (itemsChars style depth (next :: items)).length =
        1 + (style.gap (depth + 1)).length + (chars style (depth + 1) next).length +
          (itemsChars style depth items).length := by
      simp [itemsChars]
      omega
    obtain ⟨fuel, rfl⟩ : ∃ f, fuel = f + 1 := ⟨fuel - 1, by omega⟩
    have hends : EndsNumber (itemsChars style depth (next :: items) ++ ']' :: rest) := by
      rw [hchars]
      exact endsNumber_cons (by decide) _
    have hread := hitem.reads style (depth + 1) (fuel + 1) _ hends (by omega)
    have hmore := ih hnext hitems fuel (by omega)
    rw [takeItems, hread, hchars]
    simp only [skipBlanks_cons (c := ',') rfl, takeItems_congr (skipBlanks_gap style _ _), hmore]
    rfl

end Lists

theorem list {items : List Json} (h : ∀ j ∈ items, IsReadable j) : IsReadable (.list items) := by
  cases items with
  | nil =>
    refine ⟨fun style depth => ⟨'[', _, rfl, by decide, by decide⟩, fun style depth fuel rest _ hfuel => ?_⟩
    cases fuel with
    | zero => cases hfuel
    | succ fuel => rfl
  | cons item items =>
    obtain ⟨hitem, hitems⟩ := List.forall_mem_cons.mp h
    refine ⟨fun style depth => ⟨'[', _, rfl, by decide, by decide⟩, fun style depth fuel rest _ hfuel => ?_⟩
    obtain ⟨c, l, hcl, hblank, hc⟩ := hitem.begins style (depth + 1)
    have hchars : chars style depth (.list (item :: items)) ++ rest =
        '[' :: (style.gap (depth + 1) ++ (chars style (depth + 1) item ++
          (itemsChars style depth items ++ ']' :: rest))) := by
      simp [chars]
    have hlength : (chars style depth (.list (item :: items))).length =
        2 + (style.gap (depth + 1)).length + (chars style (depth + 1) item).length +
          (itemsChars style depth items).length := by
      simp [chars]
      omega
    obtain ⟨fuel, rfl⟩ : ∃ f, fuel = f + 1 := ⟨fuel - 1, by omega⟩
    have hread := takeItems_chars style depth hitem hitems fuel rest (by omega)
    have hfirst : skipBlanks (style.gap (depth + 1) ++ (chars style (depth + 1) item ++
        (itemsChars style depth items ++ ']' :: rest))) =
          c :: (l ++ (itemsChars style depth items ++ ']' :: rest)) := by
      rw [skipBlanks_gap, hcl, List.cons_append, skipBlanks_cons hblank]
    rw [hchars]
    exact takeValue_list hfirst hblank hc
      ((takeItems_congr (skipBlanks_gap style (depth + 1) _) fuel).trans hread)

section Objects

variable (style : Style) (depth : Nat)

/-- A field as it is written between the marks of an object. -/
def fieldChars (field : FieldName × Json) : List Char :=
  nameChars field.1 ++ style.colon ++ chars style (depth + 1) field.2

/-- A field whose name and value are read back. -/
def IsField (field : FieldName × Json) : Prop :=
  (∃ name : String, field.1 = .plain name ∧ ∀ c ∈ name.toList, IsPlain c) ∧ IsReadable field.2

theorem takeField {field : FieldName × Json} (h : IsField field) {rest : List Char}
    (hrest : EndsNumber rest) (fuel : Nat) (hfuel : (fieldChars style depth field).length ≤ fuel) :
    ∃ left, takeName (fieldChars style depth field ++ rest) = some (field.1, left) ∧
      takeValue fuel left = some (field.2, rest) := by
  obtain ⟨⟨name, hname, hplain⟩, hvalue⟩ := h
  obtain ⟨space, hcolon, hspace⟩ : ∃ space, style.colon = ':' :: space ∧
      ∀ cs, skipBlanks (space ++ cs) = skipBlanks cs := by
    cases style with
    | compact => exact ⟨[], rfl, fun _ => rfl⟩
    | pretty => exact ⟨[' '], rfl, fun _ => rfl⟩
  refine ⟨space ++ (chars style (depth + 1) field.2 ++ rest), ?_, ?_⟩
  · rw [fieldChars, hname, hcolon, ← takeName_plain hplain]
    simp
  · rw [takeValue_congr (hspace _)]
    refine hvalue.reads style (depth + 1) fuel rest hrest (Nat.le_trans ?_ hfuel)
    rw [fieldChars, List.length_append]
    exact Nat.le_add_left _ _

theorem fieldsChars_cons (field : FieldName × Json) (fields : List (FieldName × Json)) :
    fieldsChars style depth (field :: fields) =
      ',' :: (style.gap (depth + 1) ++ (fieldChars style depth field ++
        fieldsChars style depth fields)) := by
  simp [fieldsChars, fieldChars]

theorem takeFields_chars {fields : List (FieldName × Json)} {field : FieldName × Json}
    (hfield : IsField field) (hfields : ∀ f ∈ fields, IsField f) (fuel : Nat) (rest : List Char)
    (hfuel : (fieldChars style depth field).length + (fieldsChars style depth fields).length < fuel) :
    takeFields fuel (fieldChars style depth field ++ (fieldsChars style depth fields ++ '}' :: rest)) =
      some (field :: fields, rest) := by
  obtain ⟨fuel, rfl⟩ : ∃ f, fuel = f + 1 := ⟨fuel - 1, by omega⟩
  induction fields generalizing field fuel with
  | nil =>
    obtain ⟨left, hname, hvalue⟩ := takeField style depth hfield
      (endsNumber_gap style depth (.inr rfl) rest) fuel (by omega)
    simp only [takeFields, fieldsChars, hname, hvalue, skipBlanks_gap,
      skipBlanks_cons (c := '}') rfl]
  | cons next fields ih =>
    obtain ⟨hnext, hfields⟩ := List.forall_mem_cons.mp hfields
    have hchars : fieldsChars style depth (next :: fields) ++ '}' :: rest =
        ',' :: (style.gap (depth + 1) ++ (fieldChars style depth next ++
          (fieldsChars style depth fields ++ '}' :: rest))) := by
      simp [fieldsChars_cons]
    have hlength : (fieldsChars style depth (next :: fields)).length =
        1 + (style.gap (depth + 1)).length + (fieldChars style depth next).length +
          (fieldsChars style depth fields).length := by
      simp [fieldsChars_cons]
      omega
    obtain ⟨fuel, rfl⟩ : ∃ f, fuel = f + 1 := ⟨fuel - 1, by omega⟩
    have hends : EndsNumber (fieldsChars style depth (next :: fields) ++ '}' :: rest) := by
      rw [hchars]
      exact endsNumber_cons (by decide) _
    obtain ⟨left, hname, hvalue⟩ := takeField style depth hfield hends (fuel + 1) (by omega)
    have hmore := ih hnext hfields fuel (by omega)
    rw [takeFields, hname]
    dsimp only
    rw [hvalue, hchars]
    simp only [skipBlanks_cons (c := ',') rfl, takeFields_congr (skipBlanks_gap style _ _), hmore]
    rfl

end Objects

theorem object {fields : List (FieldName × Json)} (h : ∀ f ∈ fields, IsField f) :
    IsReadable (.object fields) := by
  refine ⟨fun style depth => ?_, fun style depth fuel rest _ hfuel => ?_⟩
  · cases fields <;> exact ⟨'{', _, rfl, by decide, by decide⟩
  cases fields with
  | nil =>
    cases fuel with
    | zero => cases hfuel
    | succ fuel => rfl
  | cons field fields =>
    obtain ⟨hfield, hfields⟩ := List.forall_mem_cons.mp h
    have hchars : chars style depth (.object (field :: fields)) ++ rest =
        '{' :: (style.gap (depth + 1) ++ (fieldChars style depth field ++
          (fieldsChars style depth fields ++ '}' :: rest))) := by
      simp [chars, fieldChars]
    have hlength : (chars style depth (.object (field :: fields))).length =
        2 + (style.gap (depth + 1)).length + (fieldChars style depth field).length +
          (fieldsChars style depth fields).length := by
      simp [chars, fieldChars]
      omega
    obtain ⟨fuel, rfl⟩ : ∃ f, fuel = f + 1 := ⟨fuel - 1, by omega⟩
    have hread := takeFields_chars style depth hfield hfields fuel rest (by omega)
    have hfirst : ∃ l, skipBlanks (style.gap (depth + 1) ++ (fieldChars style depth field ++
        (fieldsChars style depth fields ++ '}' :: rest))) = '"' :: l := by
      rw [skipBlanks_gap, fieldChars, nameChars, quoted, List.cons_append, List.cons_append,
        List.cons_append, List.cons_append, skipBlanks_cons rfl]
      exact ⟨_, rfl⟩
    obtain ⟨l, hl⟩ := hfirst
    rw [hchars]
    exact takeValue_object hl rfl (by decide)
      ((takeFields_congr (skipBlanks_gap style (depth + 1) _) fuel).trans hread)

end IsReadable

theorem IsReadable.ofChars? {j : Json} (h : IsReadable j) (style : Style) :
    Json.ofChars? (chars style 0 j) = some j := by
  have hread := h.reads style 0 (2 * (chars style 0 j).length + 1) [] endsNumber_nil (by omega)
  rw [List.append_nil] at hread
  rw [Json.ofChars?, hread]
  rfl

end BoundaryAtlas.Json
