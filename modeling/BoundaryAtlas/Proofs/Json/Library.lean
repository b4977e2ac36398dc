import Mathlib.Data.List.Nodup
import BoundaryAtlas.Proofs.Agreement
import BoundaryAtlas.Json.Library

/-!
# Lawful JSON libraries

A lawful library reads what it wrote, if the floats in it read back by themselves, and finds the
parts of a value that was put together from parts. So a structure is read back if its fields are,
and if its numbers fit into the words they are read into.
-/

namespace BoundaryAtlas

namespace JsonLibrary

/-- The text of the float is read as the float. -/
def ReadsBack (J : JsonLibrary) (x : Float) : Prop :=
  ∀ style, (J.read? (J.write style (J.float x))).bind J.float? = some x

/-- A name of letters, digits and underscores. -/
def IsIdentifier (name : String) : Bool := name.toList.all fun c => c.isAlphanum || c = '_'

/-- Values put together from words, and from floats that read back. -/
inductive Written (J : JsonLibrary) : J.Value → Prop
  | bool (b : Bool) : Written J (J.bool b)
  | nat (n : Nat) (h : n < twoPow 64) : Written J (J.nat n)
  | float (x : Float) (h : J.ReadsBack x) : Written J (J.float x)
  | list (l : List J.Value) (h : ∀ v ∈ l, Written J v) : Written J (J.list l)
  | record (fields : List (String × J.Value)) (hnodup : (fields.map Prod.fst).Nodup)
      (hnames : ∀ x ∈ fields, IsIdentifier x.1 = true) (h : ∀ x ∈ fields, Written J x.2) :
      Written J (J.record fields)
  | numbered (entries : List (Nat × J.Value)) (hnodup : (entries.map Prod.fst).Nodup)
      (hkeys : ∀ x ∈ entries, x.1 < twoPow 64) (h : ∀ x ∈ entries, Written J x.2) :
      Written J (J.numbered entries)

/-- What the shapes rely on. -/
structure IsLawful (J : JsonLibrary) : Prop where
  read_write : ∀ v, J.Written v → ∀ style, J.read? (J.write style v) = some v
  bool?_bool : ∀ b, J.bool? (J.bool b) = some b
  word?_nat : ∀ bits n, n < twoPow bits → J.word? bits (J.nat n) = some n
  list?_list : ∀ l, J.list? (J.list l) = some l
  fields?_record : ∀ (names : List String) (values : List J.Value), names.Nodup →
    values.length = names.length →
      J.fields? false names (J.record (names.zip values)) = some (values.map some)
  numbered?_numbered : ∀ entries : List (Nat × J.Value), (entries.map Prod.fst).Nodup →
    (∀ x ∈ entries, x.1 < twoPow 64) → J.numbered? (J.numbered entries) = some entries

/-- The text of `v` is read back to `v`, which is then read as `x`. -/
structure Carries (J : JsonLibrary) {β : Type} (read : J.Value → Option β) (v : J.Value) (x : β) :
    Prop where
  written : J.Written v
  value : read v = some x

variable {J : JsonLibrary} {β : Type} {read : J.Value → Option β}

theorem Carries.read_write (hJ : J.IsLawful) {v : J.Value} {x : β} (h : J.Carries read v x)
    (style : Json.Style) : (J.read? (J.write style v)).bind read = some x := by
  rw [hJ.read_write v h.written style]
  exact h.value

namespace IsLawful

variable (hJ : J.IsLawful)

include hJ

/-! ## Words and floats -/

theorem carries_nat {bits n : Nat} (hbits : bits ≤ 64) (h : n < twoPow bits) :
    J.Carries (J.word? bits) (J.nat n) n :=
  ⟨.nat n (Nat.lt_of_lt_of_le h (Nat.pow_le_pow_right (by decide) hbits)), hJ.word?_nat bits n h⟩

theorem carries_bool (b : Bool) : J.Carries J.bool? (J.bool b) b := ⟨.bool b, hJ.bool?_bool b⟩

theorem carries_float {x : Float} (h : J.ReadsBack x) : J.Carries J.float? (J.float x) x := by
  refine ⟨.float x h, ?_⟩
  have hread := h .compact
  rwa [hJ.read_write _ (.float x h) .compact] at hread

/-! ## Lists, maps and structures -/

theorem carries_list {write : β → J.Value} {l : List β}
    (h : ∀ x ∈ l, J.Carries read (write x) x) :
    J.Carries (J.listOf? read) (J.list (l.map write)) l := by
  refine ⟨.list _ (List.forall_mem_map.mpr fun x hx => (h x hx).written), ?_⟩
  have hall : l.mapM (read ∘ write) = some (l.map id) :=
    mapM_eq_some_map fun x hx => (h x hx).value
  rw [listOf?, hJ.list?_list, Option.bind_eq_bind, Option.bind_some, List.mapM_map, hall,
    List.map_id]

theorem carries_numbered {write : β → J.Value} {entries : List (Nat × β)}
    (hnodup : (entries.map Prod.fst).Nodup)
    (h : ∀ x ∈ entries, x.1 < twoPow 64 ∧ J.Carries read (write x.2) x.2) :
    J.Carries (J.numberedOf? read) (J.numbered (entries.map fun x => (x.1, write x.2)))
      entries := by
  have hkeys : ((entries.map fun x => (x.1, write x.2)).map Prod.fst).Nodup := by
    rwa [List.map_map]
  have hlt : ∀ x ∈ entries.map fun x => (x.1, write x.2), x.1 < twoPow 64 :=
    List.forall_mem_map.mpr fun x hx => (h x hx).1
  refine ⟨.numbered _ hkeys hlt (List.forall_mem_map.mpr fun x hx => (h x hx).2.written), ?_⟩
  rw [numberedOf?, hJ.numbered?_numbered _ hkeys hlt, Option.bind_eq_bind, Option.bind_some,
    List.mapM_map, mapM_eq_some_map (g := id), List.map_id]
  intro x hx
  simp only [Function.comp_apply, (h x hx).2.value]
  rfl

theorem carries_record {x : β} (names : List String) (values : List J.Value)
    (hnodup : names.Nodup) (hnames : names.all IsIdentifier = true)
    (hlen : values.length = names.length) (hvalues : ∀ v ∈ values, J.Written v)
    (hread : ∀ v, J.fields? false names v = some (values.map some) → read v = some x) :
    J.Carries read (J.record (names.zip values)) x := by
  refine ⟨.record _ ?_ ?_ ?_, hread _ (hJ.fields?_record names values hnodup hlen)⟩
  · rwa [List.map_fst_zip (Nat.le_of_eq hlen.symm)]
  · rintro ⟨name, value⟩ hx
    exact List.all_eq_true.mp hnames name (List.of_mem_zip hx).1
  · rintro ⟨name, value⟩ hx
    exact hvalues value (List.of_mem_zip hx).2

end IsLawful

end JsonLibrary

end BoundaryAtlas
