import Mathlib.Data.Bool.AllAny
import BoundaryAtlas.Proofs.Decimal.Digits
import BoundaryAtlas.Proofs.Json.Floats
import BoundaryAtlas.Proofs.Json.Library

/-!
# The JSON of this project is lawful

What its printer writes its reader reads back, and its structures find their fields.
-/

namespace BoundaryAtlas.Json

open JsonLibrary

/-! ## Names -/

theorem isPlain_of_isAlphanum {c : Char} (h : c.isAlphanum = true) : IsPlain c := by
  have hbelow : ∀ n < 0x30, (Char.ofNat n).isAlphanum = false := by decide
  have hrange : 0x30 ≤ c.toNat := by
    by_contra hlt
    rw [← Char.ofNat_toNat c, hbelow _ (Nat.lt_of_not_le hlt)] at h
    cases h
  refine ⟨?_, ?_, Nat.le_trans (by decide) hrange⟩ <;> (rintro rfl; exact absurd h (by decide))

theorem isPlain_of_isIdentifier {name : String} (h : IsIdentifier name = true) :
    ∀ c ∈ name.toList, IsPlain c := by
  intro c hc
  rcases Bool.or_eq_true _ _ |>.mp (List.all_eq_true.mp h c hc) with halnum | hline
  · exact isPlain_of_isAlphanum halnum
  · obtain rfl : c = '_' := by simpa using hline
    decide

theorem isPlain_of_isDigit {c : Char} (h : c.isDigit = true) : IsPlain c :=
  isPlain_of_isAlphanum (by rw [Char.isAlphanum, h, Bool.or_true])

/-! ## Numbers -/

theorem nat?_ofNat (n : Nat) : (ofNat n).nat? = some n := by
  rw [ofNat, nat?, if_pos (Decimal.all_isDigit_digitChars n)]
  exact congrArg some Nat.ofDigitChars_ten_toDigits

theorem word?_ofNat {bits n : Nat} (h : n < twoPow bits) : word? bits (ofNat n) = some n := by
  rw [word?, nat?_ofNat]
  exact if_pos h

theorem numberName?_toString {n : Nat} (h : n < twoPow 64) :
    numberName? (.plain (toString n)) = some n := by
  have hword : word? 64 (.number (Decimal.digitChars n)) = some n := word?_ofNat h
  rw [numberName?, Decimal.toList_toString, hword]
  exact if_pos rfl

theorem numbered?_numbered {entries : List (Nat × Json)} (h : ∀ x ∈ entries, x.1 < twoPow 64) :
    numbered? (library.numbered entries) = some entries := by
  rw [numbered?, List.mapM_map, mapM_eq_some_map (g := id), List.map_id]
  intro x hx
  simp only [Function.comp_apply, numberName?_toString (h x hx)]
  rfl

/-! ## Structures -/

/-- Values with names, as a structure is written. -/
def named (names : List String) (values : List Json) : List (FieldName × Json) :=
  List.zipWith (fun name value => (.plain name, value)) names values

theorem record_zip (names : List String) (values : List Json) :
    library.record (names.zip values) = .object (named names values) := by
  simp only [List.zip, List.map_zipWith, named]

theorem countP_named {name : String} {names : List String} {values : List Json}
    (hlen : values.length = names.length) :
    (named names values).countP (·.1.text? = some name) = names.count name := by
  induction names generalizing values with
  | nil => rfl
  | cons first names ih =>
    obtain ⟨value, values, rfl⟩ := List.exists_cons_of_length_eq_add_one hlen
    rw [named, List.zipWith_cons_cons, List.countP_cons, List.count_cons]
    rw [← ih (Nat.succ.inj hlen), named]
    simp [FieldName.text?]

theorem lookup?_named {names : List String} {values : List Json} (hnodup : names.Nodup)
    (hlen : values.length = names.length) :
    names.map (fun name => lookup? name (named names values)) = values.map some := by
  induction names generalizing values with
  | nil => rw [List.eq_nil_of_length_eq_zero hlen]; rfl
  | cons first names ih =>
    obtain ⟨value, values, rfl⟩ := List.exists_cons_of_length_eq_add_one hlen
    obtain ⟨hfirst, hnodup⟩ := List.nodup_cons.mp hnodup
    have hrest : names.map (fun name => lookup? name (named (first :: names) (value :: values))) =
        names.map fun name => lookup? name (named names values) := by
      refine List.map_congr_left fun name hname => ?_
      have hne : first ≠ name := fun heq => hfirst (heq ▸ hname)
      rw [lookup?, named, List.zipWith_cons_cons, List.find?_cons_of_neg (by simpa [FieldName.text?])]
      rfl
    rw [List.map_cons, List.map_cons, hrest, ih hnodup (Nat.succ.inj hlen)]
    simp [lookup?, named, FieldName.text?]

theorem fields?_named {names : List String} {values : List Json} (hnodup : names.Nodup)
    (hlen : values.length = names.length) :
    fields? false names (.object (named names values)) = some (values.map some) := by
  have hknown : (named names values).any (fun field =>
      field.1.text?.all fun name => false && !names.contains name) = false := by
    refine List.any_eq_false.mpr fun field hfield => ?_
    obtain ⟨⟨name, value⟩, -, rfl⟩ : ∃ x ∈ names.zip values, (FieldName.plain x.1, x.2) = field := by
      rw [named, ← List.map_uncurry_zip_eq_zipWith] at hfield
      exact List.mem_map.mp hfield
    exact Bool.false_ne_true
  have honce : names.any
      (fun name => 1 < (named names values).countP (·.1.text? = some name)) = false := by
    refine List.any_eq_false.mpr fun name _ => ?_
    have hle := List.nodup_iff_count_le_one.mp hnodup name
    simp only [countP_named hlen, decide_eq_true_eq]
    omega
  rw [fields?, hknown, honce, ← lookup?_named hnodup hlen]
  rfl

/-! ## Texts -/

theorem isReadable_of_written {j : library.Value} (h : library.Written j) : IsReadable j := by
  induction h with
  | bool b => exact .bool b
  | nat n _ => exact .ofNat n
  | float x h => exact isReadable_ofFloat (h .compact)
  | list l _ ih => exact .list ih
  | record fields _ hnames _ ih =>
    exact .object (List.forall_mem_map.mpr fun x hx =>
      ⟨⟨x.1, rfl, isPlain_of_isIdentifier (hnames x hx)⟩, ih x hx⟩)
  | numbered entries _ _ _ ih =>
    refine .object (List.forall_mem_map.mpr fun x hx => ⟨⟨toString x.1, rfl, fun c hc => ?_⟩, ih x hx⟩)
    rw [Decimal.toList_toString] at hc
    exact isPlain_of_isDigit (Decimal.isDigit_of_mem_digitChars hc)

theorem library_isLawful : library.IsLawful where
  read_write j hj style := by
    show ofString? (String.ofList (chars style 0 j)) = some j
    rw [ofString?, String.toList_ofList]
    exact (isReadable_of_written hj).ofChars? style
  bool?_bool _ := rfl
  word?_nat _ _ h := word?_ofNat h
  list?_list _ := rfl
  fields?_record names values hnodup hlen := by
    rw [record_zip]
    exact fields?_named hnodup hlen
  numbered?_numbered _ _ h := numbered?_numbered h

end BoundaryAtlas.Json
