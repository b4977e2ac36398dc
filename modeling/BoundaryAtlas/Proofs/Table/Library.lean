import Mathlib.Data.List.Perm.Basic
import Mathlib.Data.List.Nodup
import BoundaryAtlas.Proofs.Grid.Keys
import BoundaryAtlas.Table.Library

/-!
# Lawful table libraries

A lawful library reads the numbers and labels that it wrote, makes one group of all rows with a
number, and moves whole rows when it sorts them. So the totals of a table count its records.
-/

namespace BoundaryAtlas

namespace Table

open Decimal (isDigit_of_mem_digitChars)

/-- A character that never ends a cell or a line. -/
def IsPlain (c : Char) : Prop := c ≠ ',' ∧ c ≠ '\n' ∧ c ≠ '"' ∧ c ≠ '\r'

instance (c : Char) : Decidable (IsPlain c) :=
  inferInstanceAs (Decidable (c ≠ ',' ∧ c ≠ '\n' ∧ c ≠ '"' ∧ c ≠ '\r'))

theorem isPlain_of_isDigit {c : Char} (h : c.isDigit = true) : IsPlain c := by
  refine ⟨?_, ?_, ?_, ?_⟩ <;> (rintro rfl; exact absurd h (by decide))

theorem isPlain_of_mem_key (b : GridBoundary) : ∀ c ∈ b.key.toList, IsPlain c := by
  have hnode : ∀ p : GridPoint, ∀ c ∈ p.key.toList, IsPlain c := by
    intro p c hc
    rw [p.toList_key, List.mem_append, List.mem_cons] at hc
    rcases hc with hc | rfl | hc
    · exact isPlain_of_isDigit (isDigit_of_mem_digitChars hc)
    · decide
    · exact isPlain_of_isDigit (isDigit_of_mem_digitChars hc)
  rw [b.toList_key]
  induction b.points with
  | nil => simp
  | cons p l ih =>
    cases l with
    | nil => simpa using hnode p
    | cons q l =>
      intro c hc
      simp only [List.map_cons, List.intercalate_cons_cons, List.mem_append,
        List.mem_singleton] at hc ih
      rcases hc with (hc | rfl) | hc
      · exact hnode p c hc
      · decide
      · exact ih c hc

/-- A row whose key has plain characters only, as the keys of boundaries have. -/
def Row.IsPlain (r : Row) : Prop := ∀ c ∈ r.boundary.toList, Table.IsPlain c

theorem Row.isPlain_ofRecord (r : Record) : (Row.ofRecord r).IsPlain := isPlain_of_mem_key r.boundary

end Table

namespace TableLibrary

open Table

variable {L : TableLibrary}

/-- The column has these values, one in each row. -/
def HasColumn (L : TableLibrary) (f : L.Frame) (name : String) (values : List Value) : Prop :=
  L.column? name f = some (values.map some)

/-- What the totals rely on. Sums of words of 32 bits are taken modulo `2 ^ 32`. -/
structure IsLawful (L : TableLibrary) : Prop where
  frame?_columnsOf : ∀ rows, (L.frame? (columnsOf rows)).isSome = true ↔ rows.length < maxRows
  scan?_write : ∀ format rows, rows ≠ [] → (∀ r ∈ rows, r.IsPlain ∧ r.kinks < twoPow 32) →
    ∀ f ∈ L.frame? (columnsOf rows), ∃ g ∈ L.scan? format ["kinks", "label"] [L.write format f],
      L.HasColumn g "kinks" (rows.map fun r => .integer r.kinks) ∧
      L.HasColumn g "label" (rows.map fun r => .bool r.label)
  groupBy?_eq : ∀ (f : L.Frame) (key labels count sum : String) (rows : List (Int × Bool)),
    [key, count, sum].Nodup → L.HasColumn f key (rows.map fun r => .integer r.1) →
    L.HasColumn f labels (rows.map fun r => .bool r.2) →
    ∃ g ∈ L.groupBy? key [(count, .len), (sum, .sum32 labels)] f, ∃ keys : List Int, keys.Nodup ∧
      (∀ k, k ∈ keys ↔ ∃ r ∈ rows, r.1 = k) ∧ L.HasColumn g key (keys.map .integer) ∧
      L.HasColumn g count (keys.map fun k => .integer (rows.countP (·.1 = k))) ∧
      L.HasColumn g sum (keys.map fun k =>
        .integer (((rows.countP fun r => r.1 = k && r.2) % twoPow 32 : Nat) : Int))
  sortBy?_eq : ∀ (f : L.Frame) (key : String) (keys : List Int),
    L.HasColumn f key (keys.map .integer) →
    ∃ g ∈ L.sortBy? key f, ∃ order : List Nat, order.Perm (List.range keys.length) ∧
      (order.filterMap (keys[·]?)).Pairwise (· ≤ ·) ∧
      ∀ name values, L.HasColumn f name values →
        L.HasColumn g name (order.filterMap (values[·]?))

/-! ## Totals -/

/-- The frame has one row for each of these numbers, in this order, with its two counts. -/
structure Totals (L : TableLibrary) (f : L.Frame) (ks : List Nat) (count positives : Nat → Nat) :
    Prop where
  kinks : L.HasColumn f "kinks" (ks.map fun k : Nat => .integer k)
  boundaries : L.HasColumn f "boundaries" (ks.map fun k => .integer (count k))
  positives : L.HasColumn f "positives" (ks.map fun k => .integer (positives k))

theorem Totals.congr {f : L.Frame} {ks : List Nat} {count positives count' positives' : Nat → Nat}
    (h : L.Totals f ks count positives) (hcount : ∀ k, count' k = count k)
    (hpositives : ∀ k, positives' k = positives k) : L.Totals f ks count' positives' := by
  obtain rfl := funext hcount
  obtain rfl := funext hpositives
  exact h

theorem filterMap_getElem?_range {β : Type} (l : List β) :
    (List.range l.length).filterMap (l[·]?) = l := by
  induction l with
  | nil => rfl
  | cons b l ih =>
    rw [List.length_cons, List.range_succ_eq_map, List.filterMap_cons, List.filterMap_map]
    exact congrArg (b :: ·) ih

theorem filterMap_getElem?_map {β γ : Type} (order : List Nat) (l : List β) (f : β → γ) :
    order.filterMap ((l.map f)[·]?) = (order.filterMap (l[·]?)).map f := by
  rw [List.map_filterMap]
  simp only [List.getElem?_map]

theorem IsLawful.sorted (hL : L.IsLawful) {f : L.Frame} {key : String} {keys : List Int}
    (hkeys : L.HasColumn f key (keys.map .integer)) (hnodup : keys.Nodup) :
    ∃ g ∈ L.sortBy? key f, ∃ sorted : List Int, sorted.Perm keys ∧ sorted.Pairwise (· < ·) ∧
      ∀ name (value : Int → Value), L.HasColumn f name (keys.map value) →
        L.HasColumn g name (sorted.map value) := by
  obtain ⟨g, hg, order, horder, hle, hcolumns⟩ := hL.sortBy?_eq f key keys hkeys
  have hperm : (order.filterMap (keys[·]?)).Perm keys := by
    simpa only [filterMap_getElem?_range] using horder.filterMap (keys[·]?)
  refine ⟨g, hg, _, hperm, ?_, fun name value hname => ?_⟩
  · exact (hle.and (hperm.nodup_iff.mpr hnodup)).imp fun h => Int.lt_iff_le_and_ne.mpr h
  · rw [← filterMap_getElem?_map]
    exact hcolumns name _ hname

variable {rows : List Row}

/-- What a row adds to the totals. -/
def entry (r : Row) : Int × Bool := (r.kinks, r.label)

theorem entry_fst_eq_iff (r : Row) (k : Nat) : (entry r).1 = (k : Int) ↔ r.kinks = k := Int.ofNat_inj

theorem mem_map_entry (k : Int) : (∃ x ∈ rows.map entry, x.1 = k) ↔ ∃ r ∈ rows, (r.kinks : Int) = k := by
  simp [entry]

theorem countP_map_entry (k : Nat) :
    (rows.map entry).countP (·.1 = (k : Int)) = rows.countP (·.kinks = k) := by
  rw [List.countP_map]
  exact List.countP_congr fun r _ => by simp only [Function.comp_apply, entry_fst_eq_iff]

theorem countP_map_entry_label (k : Nat) (h : rows.length < twoPow 32) :
    ((rows.map entry).countP fun x => x.1 = (k : Int) && x.2) % twoPow 32 =
      rows.countP fun r => r.kinks = k && r.label := by
  have hle : (rows.countP fun r => r.kinks = k && r.label) ≤ rows.length := List.countP_le_length
  have heq : ((rows.map entry).countP fun x => x.1 = (k : Int) && x.2) =
      rows.countP fun r => r.kinks = k && r.label := by
    rw [List.countP_map]
    exact List.countP_congr fun r _ => by simp only [Function.comp_apply, entry_fst_eq_iff]; rfl
  rw [heq, Nat.mod_eq_of_lt (hle.trans_lt h)]

/-- Whatever format a table is stored in, its totals count its rows. -/
theorem IsLawful.summarize?_write (hL : L.IsLawful) (format : Format) (hne : rows ≠ [])
    (hrows : ∀ r ∈ rows, r.IsPlain ∧ r.kinks < twoPow 32) {f : L.Frame}
    (hf : f ∈ L.frame? (columnsOf rows)) :
    ∃ ks : List Nat, ks.Pairwise (· < ·) ∧ (∀ k, k ∈ ks ↔ ∃ r ∈ rows, r.kinks = k) ∧
      ∃ totals ∈ L.summarize? format [L.write format f],
        L.Totals totals ks (fun k => rows.countP (·.kinks = k))
          (fun k => rows.countP fun r => r.kinks = k && r.label) := by
  have hlength : rows.length < twoPow 32 :=
    ((hL.frame?_columnsOf rows).mp (Option.isSome_iff_exists.mpr ⟨f, hf⟩)).trans_le (Nat.sub_le _ _)
  obtain ⟨scanned, hscanned, hkinks, hlabels⟩ := hL.scan?_write format rows hne hrows f hf
  obtain ⟨grouped, hgrouped, keys, hnodup, hmem, hkey, hlen, hsum⟩ :=
    hL.groupBy?_eq scanned "kinks" "label" "boundaries" "positives" (rows.map entry) (by decide)
      (by rw [List.map_map]; exact hkinks) (by rw [List.map_map]; exact hlabels)
  obtain ⟨totals, htotals, sorted, hperm, hlt, hcolumns⟩ := hL.sorted hkey hnodup
  have hsorted : ∀ k : Int, k ∈ sorted ↔ ∃ r ∈ rows, (r.kinks : Int) = k := fun k =>
    (hperm.mem_iff.trans (hmem k)).trans (mem_map_entry k)
  -- The keys are the kinks of rows, so they are natural numbers.
  obtain ⟨ks, rfl⟩ : ∃ ks : List Nat, ks.map Int.ofNat = sorted := by
    refine ⟨sorted.map Int.toNat, ?_⟩
    rw [List.map_map]
    refine (List.map_congr_left fun k hk => ?_).trans (List.map_id _)
    obtain ⟨r, -, rfl⟩ := (hsorted k).mp hk
    rfl
  have hcolumns : ∀ name (value : Int → Value), L.HasColumn grouped name (keys.map value) →
      L.HasColumn totals name (ks.map fun k : Nat => value k) := by
    intro name value hname
    have hcolumn := hcolumns name value hname
    rwa [List.map_map] at hcolumn
  refine ⟨ks, ?_, fun k => ?_, totals, ?_, hcolumns "kinks" _ hkey, ?_, ?_⟩
  · exact (List.pairwise_map.mp hlt).imp Int.ofNat_lt.mp
  · rw [← List.mem_map_of_injective fun _ _ => Int.ofNat.inj, hsorted]
    exact exists_congr fun r => and_congr_right fun _ => Int.ofNat_inj
  · simp only [summarize?, Option.mem_def.mp hscanned, Option.mem_def.mp hgrouped,
      Option.bind_eq_bind, Option.bind_some]
    exact htotals
  · simpa only [countP_map_entry] using hcolumns "boundaries" _ hlen
  · simpa only [countP_map_entry_label _ hlength] using hcolumns "positives" _ hsum

theorem IsLawful.summarize?_records (hL : L.IsLawful) (format : Format) {records : List Record}
    (hne : records ≠ []) (hkinks : ∀ r ∈ records, r.kinks < twoPow 32) {stored : L.Stored}
    (hstored : stored ∈ L.writeRecords? format records) :
    ∃ ks : List Nat, ks.Pairwise (· < ·) ∧ (∀ k, k ∈ ks ↔ ∃ r ∈ records, r.kinks = k) ∧
      ∃ totals ∈ L.summarize? format [stored],
        L.Totals totals ks (fun k => records.countP (·.kinks = k))
          (fun k => records.countP fun r => r.kinks = k && r.label) := by
  obtain ⟨f, hf, rfl⟩ := Option.map_eq_some_iff.mp hstored
  have hsame : ∀ r ∈ records, (Row.ofRecord r).kinks = r.kinks := fun r hr =>
    Nat.mod_eq_of_lt (hkinks r hr)
  obtain ⟨ks, hks, hmem, totals, htotals, hcounts⟩ :=
    hL.summarize?_write format (by simpa using hne)
      (List.forall_mem_map.mpr fun r hr =>
        ⟨Row.isPlain_ofRecord r, (hsame r hr).symm ▸ hkinks r hr⟩) hf
  refine ⟨ks, hks, fun k => ?_, totals, htotals, hcounts.congr (fun k => ?_) fun k => ?_⟩
  · rw [hmem]
    simp only [List.mem_map, exists_exists_and_eq_and]
    exact exists_congr fun r => and_congr_right fun hr => by rw [hsame r hr]
  · rw [List.countP_map]
    exact List.countP_congr fun r hr => by simp [hsame r hr]
  · rw [List.countP_map]
    exact List.countP_congr fun r hr => by simp only [Function.comp_apply, hsame r hr]; rfl

theorem IsLawful.writeRecords?_isSome_iff (hL : L.IsLawful) (format : Format)
    (records : List Record) :
    (L.writeRecords? format records).isSome = true ↔ records.length < maxRows := by
  rw [writeRecords?, Option.isSome_map, recordsFrame?, hL.frame?_columnsOf, List.length_map]

end TableLibrary

end BoundaryAtlas
