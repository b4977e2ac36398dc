import BoundaryAtlas.Proofs.Table.Reading

/-!
# The tables of this project are lawful

What is written to a table is read from it, rows with one number are in one group, and rows are
sorted as a whole.
-/

namespace BoundaryAtlas.Table

open TableLibrary

theorem hasColumn_iff (f : Frame) (name : String) (values : List Value) :
    library.HasColumn f name values ↔ f.column? name = some (values.map some) := Iff.rfl

/-! ## Frames of rows -/

theorem ofColumns?_columnsOf (rows : List Row) :
    Frame.ofColumns? (columnsOf rows) =
      if rows.length < maxRows then some ⟨(columnsOf rows).map fun c => (c.1, c.2.cells)⟩
      else none := by
  simp [Frame.ofColumns?, columnsOf, Column.length]

theorem rows_columnsOf (rows : List Row) :
    Frame.rows ⟨(columnsOf rows).map fun c => (c.1, c.2.cells)⟩ = rows := by
  have hrow : ∀ r : Row, Row.ofCells? (some (.integer r.kinks), some (.bool r.label),
      some (.text r.boundary.toList)) = some r := by
    intro r
    simp [Row.ofCells?]
  simp [Frame.rows, Frame.column?, columnsOf, Column.cells, List.zip_map', List.map_map,
    List.filterMap_map, Function.comp_def, hrow]

theorem scanRows?_kinks_label (rows : List Row) :
    scanRows? ["kinks", "label"] rows =
      some ⟨[("kinks", rows.map fun r => some (.integer r.kinks)),
        ("label", rows.map fun r => some (.bool r.label))]⟩ := by
  simp [scanRows?, Frame.column?, columnsOf, Column.cells, List.map_map, Function.comp_def]

theorem scan?_store (format : Format) {rows : List Row} (hne : rows ≠ [])
    (hrows : ∀ r ∈ rows, r.IsPlain ∧ r.kinks < twoPow 32) :
    scan? format ["kinks", "label"]
        [store format ⟨(columnsOf rows).map fun c => (c.1, c.2.cells)⟩] =
      some ⟨[("kinks", rows.map fun r => some (.integer r.kinks)),
        ("label", rows.map fun r => some (.bool r.label))]⟩ := by
  cases format with
  | commas =>
    rw [store, rows_columnsOf]
    have hsheets : [Stored.text (csv rows)].mapM Stored.sheet? = some [⟨names, body rows⟩] := by
      rw [List.mapM_cons, Stored.sheet?, ofText?_csv]
      rfl
    rw [scan?, hsheets, Option.bind_some]
    exact scanSheets?_body hne (fun r hr => (hrows r hr).1) fun r hr => (hrows r hr).2
  | columns =>
    rw [store, rows_columnsOf]
    have hstored : [Stored.columns rows].mapM Stored.rows? = some [rows] := rfl
    rw [scan?, hstored, Option.bind_some, List.flatten_cons, List.flatten_nil, List.append_nil]
    exact scanRows?_kinks_label rows

/-! ## Groups -/

theorem same_integer (a b : Int) :
    same (some (.integer a)) (some (.integer b)) = decide (a = b) := by
  simp only [same, before, Value.before]
  by_cases h : a = b
  · simp [h]
  · simp [h]
    omega

theorem distinct_integers (ks : List Int) :
    ∃ order : List Int, order.Nodup ∧ (∀ k, k ∈ order ↔ k ∈ ks) ∧
      distinct (ks.map fun k => some (.integer k)) = order.map fun k => some (.integer k) := by
  induction ks with
  | nil => exact ⟨[], .nil, fun _ => Iff.rfl, rfl⟩
  | cons k ks ih =>
    obtain ⟨order, hnodup, hmem, horder⟩ := ih
    refine ⟨k :: order.filter (k ≠ ·), ?_, fun k' => ?_, ?_⟩
    · exact List.nodup_cons.mpr ⟨by simp, hnodup.filter _⟩
    · rw [List.mem_cons, List.mem_filter, hmem, List.mem_cons, decide_eq_true_eq]
      exact ⟨Or.imp_right And.left, fun h => or_iff_not_imp_left.mpr fun hne =>
        ⟨h.resolve_left hne, Ne.symm hne⟩⟩
    · rw [List.map_cons, distinct, horder, List.map_cons, List.filter_map]
      simp [Function.comp_def, same_integer]

theorem of?_len (f : Frame) (rows : List (Int × Bool)) (k : Int) :
    Aggregate.len.of? f (rows.map fun r => some (.integer r.1)) (some (.integer k)) =
      some (some (.integer (rows.countP (·.1 = k)))) := by
  simp only [Aggregate.of?, List.countP_map, Function.comp_def, same_integer, eq_comm]

theorem foldl_weights (rows : List (Int × Bool)) (k : Int) (total : Nat) :
    (rows.filter (k = ·.1)).foldl (fun total r => total + (Value.bool r.2).weight) total =
      total + rows.countP fun r => r.1 = k && r.2 := by
  have hweight : ∀ b : Bool, (Value.bool b).weight = if b then 1 else 0 := by decide
  induction rows generalizing total with
  | nil => rfl
  | cons r rows ih =>
    rw [List.countP_cons, List.filter_cons]
    by_cases hk : k = r.1
    · simp only [hk, decide_true, if_true, List.foldl_cons, hweight] at ih ⊢
      rw [ih, Nat.add_assoc, Nat.add_comm _ (List.countP _ _)]
      simp
    · simpa [hk, Ne.symm hk] using ih total

theorem of?_sum32 (f : Frame) (rows : List (Int × Bool)) (labels : String)
    (hlabels : f.column? labels = some (rows.map fun r => some (.bool r.2))) (k : Int) :
    (Aggregate.sum32 labels).of? f (rows.map fun r => some (.integer r.1)) (some (.integer k)) =
      some (some (.integer (((rows.countP fun r => r.1 = k && r.2) % twoPow 32 : Nat) : Int))) := by
  have hsum := foldl_weights rows k 0
  rw [Nat.zero_add] at hsum
  simp [Aggregate.of?, hlabels, List.zip_map', List.filter_map, Function.comp_def, same_integer,
    List.foldl_map, ← hsum]

theorem groupBy?_integers (f : Frame) (key labels count sum : String) (rows : List (Int × Bool))
    (hnames : [key, count, sum].Nodup)
    (hkey : library.HasColumn f key (rows.map fun r => .integer r.1))
    (hlabels : library.HasColumn f labels (rows.map fun r => .bool r.2)) :
    ∃ g ∈ f.groupBy? key [(count, .len), (sum, .sum32 labels)], ∃ keys : List Int, keys.Nodup ∧
      (∀ k, k ∈ keys ↔ ∃ r ∈ rows, r.1 = k) ∧
      library.HasColumn g key (keys.map .integer) ∧
      library.HasColumn g count (keys.map fun k => .integer (rows.countP (·.1 = k))) ∧
      library.HasColumn g sum (keys.map fun k =>
        .integer (((rows.countP fun r => r.1 = k && r.2) % twoPow 32 : Nat) : Int)) := by
  simp only [hasColumn_iff, List.map_map, Function.comp_def] at hkey hlabels ⊢
  obtain ⟨keys, hnodup, hmem, hdistinct⟩ := distinct_integers (rows.map Prod.fst)
  rw [List.map_map] at hdistinct
  have hcounts : (keys.map fun k => some (Value.integer k)).mapM
      (Aggregate.len.of? f (rows.map fun r => some (.integer r.1))) =
        some (keys.map fun k => some (.integer (rows.countP (·.1 = k)))) := by
    rw [List.mapM_map]
    exact mapM_eq_some_map fun k _ => of?_len f rows k
  have hsums : (keys.map fun k => some (Value.integer k)).mapM
      ((Aggregate.sum32 labels).of? f (rows.map fun r => some (.integer r.1))) =
        some (keys.map fun k => some (.integer
          (((rows.countP fun r => r.1 = k && r.2) % twoPow 32 : Nat) : Int))) := by
    rw [List.mapM_map]
    exact mapM_eq_some_map fun k _ => of?_sum32 f rows labels hlabels k
  have hgroups : f.groupBy? key [(count, .len), (sum, .sum32 labels)] =
      some ⟨[(key, keys.map fun k => some (.integer k)),
        (count, keys.map fun k => some (.integer (rows.countP (·.1 = k)))),
        (sum, keys.map fun k => some (.integer
          (((rows.countP fun r => r.1 = k && r.2) % twoPow 32 : Nat) : Int)))]⟩ := by
    have hdistinct : distinct (rows.map fun r => some (.integer r.1)) =
        keys.map fun k => some (.integer k) := hdistinct
    simp only [Frame.groupBy?, hkey, Option.bind_eq_bind, Option.bind_some, hdistinct,
      List.mapM_cons, List.mapM_nil, hcounts, hsums, Option.pure_def]
  obtain ⟨⟨hcount, hsum⟩, hboth⟩ : (key ≠ count ∧ key ≠ sum) ∧ count ≠ sum := by simpa using hnames
  refine ⟨_, hgroups, keys, hnodup, fun k => ?_, ?_, ?_, ?_⟩
  · rw [hmem, List.mem_map]
  · simp [Frame.column?]
  · simp [Frame.column?, hcount]
  · simp [Frame.column?, hsum, hboth]

/-! ## Order -/

theorem column?_pick (f : Frame) (order : List Nat) (name : String) (cells : List (Option Value))
    (h : f.column? name = some cells) :
    (f.pick order).column? name = some (order.filterMap (cells[·]?)) := by
  obtain ⟨columns⟩ := f
  induction columns with
  | nil => cases h
  | cons c columns ih =>
    simp only [Frame.column?, Frame.pick, List.map_cons, List.find?_cons] at h ih ⊢
    by_cases hname : c.1 = name
    · simp only [hname, decide_true, Option.map_some, Option.some.injEq] at h ⊢
      rw [h]
    · simp only [hname, decide_false] at h ⊢
      exact ih h

/-- The order of rows by the numbers in them. -/
def notAfter (keys : List Int) (i j : Nat) : Bool :=
  !before ((keys[j]?).map .integer) ((keys[i]?).map .integer)

theorem notAfter_trans (keys : List Int) (i j k : Nat) :
    notAfter keys i j = true → notAfter keys j k = true → notAfter keys i k = true := by
  unfold notAfter
  rcases keys[i]? with _ | a <;> rcases keys[j]? with _ | b <;> rcases keys[k]? with _ | c <;>
    simp [before, Value.before]
  omega

theorem notAfter_total (keys : List Int) (i j : Nat) :
    (notAfter keys i j || notAfter keys j i) = true := by
  unfold notAfter
  rcases keys[i]? with _ | a <;> rcases keys[j]? with _ | b <;> simp [before, Value.before]
  omega

theorem sortBy?_integers (f : Frame) (key : String) (keys : List Int)
    (hkey : library.HasColumn f key (keys.map .integer)) :
    ∃ g ∈ f.sortBy? key, ∃ order : List Nat, order.Perm (List.range keys.length) ∧
      (order.filterMap (keys[·]?)).Pairwise (· ≤ ·) ∧
      ∀ name values, library.HasColumn f name values →
        library.HasColumn g name (order.filterMap (values[·]?)) := by
  simp only [hasColumn_iff] at hkey ⊢
  let order := (List.range keys.length).mergeSort (notAfter keys)
  have hsort : f.sortBy? key = some (f.pick order) := by
    have hcell : ∀ i : Nat, (((keys.map Value.integer).map some)[i]?).getD none =
        (keys[i]?).map Value.integer := by
      intro i
      cases h : keys[i]? <;> simp [h]
    simp only [Frame.sortBy?, hkey, Option.bind_eq_bind, Option.bind_some, hcell, List.length_map]
    rfl
  refine ⟨_, hsort, order, List.mergeSort_perm _ _, ?_, fun name values hname => ?_⟩
  · have hsorted : order.Pairwise fun i j => notAfter keys i j = true :=
      List.pairwise_mergeSort (notAfter_trans keys) (notAfter_total keys) _
    refine hsorted.filterMap _ fun i j hij a ha b hb => ?_
    simpa [notAfter, ha, hb, before, Value.before] using hij
  · rw [column?_pick f order name _ hname, filterMap_getElem?_map]

theorem library_isLawful : library.IsLawful where
  frame?_columnsOf rows := by
    show (Frame.ofColumns? (columnsOf rows)).isSome = true ↔ _
    rw [ofColumns?_columnsOf]
    split <;> simp [*]
  scan?_write format rows hne hrows f hf := by
    have hf : Frame.ofColumns? (columnsOf rows) = some f := hf
    rw [ofColumns?_columnsOf] at hf
    split at hf
    · obtain rfl := Option.some.inj hf
      refine ⟨_, scan?_store format hne hrows, ?_, ?_⟩ <;>
        simp [hasColumn_iff, Frame.column?, List.map_map, Function.comp_def]
    · cases hf
  groupBy?_eq := groupBy?_integers
  sortBy?_eq := sortBy?_integers

end BoundaryAtlas.Table
