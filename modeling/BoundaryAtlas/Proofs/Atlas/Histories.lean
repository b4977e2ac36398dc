import BoundaryAtlas.Proofs.Atlas.Documents
import BoundaryAtlas.Proofs.Atlas.Machines

/-!
# Records added one after the other

Records may name a boundary again and again, with other labels and any number of kinks. The first
one counts, and an atlas lists the boundaries that it was given in the order of their nodes. In
machine words the list overflows if the kinks of one of them cannot be counted.
-/

namespace BoundaryAtlas

/-! ## The order of boundaries -/

/-- The node `p` comes first: it stands in an earlier column, or lower in the same one. -/
def GridPoint.Before (p q : GridPoint) : Prop := p.col < q.col ∨ p.col = q.col ∧ p.row < q.row

/-- Boundaries differ first at a node, or one of them goes on where the other one ends. -/
def GridBoundary.Before (a b : GridBoundary) : Prop := List.Lex GridPoint.Before a.points b.points

theorem compareLex_eq_lt_iff (l l' : List GridPoint) :
    List.compareLex GridPoint.cmp l l' = .lt ↔ List.Lex GridPoint.Before l l' := by
  induction l generalizing l' with
  | nil => cases l' <;> simp [List.compareLex]
  | cons p l ih =>
    cases l' with
    | nil => simp [List.compareLex]
    | cons q l' =>
      have hlt : GridPoint.cmp p q = .lt ↔ GridPoint.Before p q := GridPoint.cmp_lt_iff p q
      have heq : GridPoint.cmp p q = .eq ↔ p = q := Std.LawfulEqCmp.compare_eq_iff_eq
      rw [List.compareLex_cons_cons, Ordering.then_eq_lt, hlt, heq, ih, List.cons_lex_cons_iff]

theorem GridBoundary.cmp_eq_lt_iff (a b : GridBoundary) : cmp a b = .lt ↔ a.Before b :=
  compareLex_eq_lt_iff a.points b.points

namespace Atlas

variable {α : Type}

/-! ## Answers -/

/-- Adds records one after the other, and keeps the answers. -/
def insertAll (m : Atlas α) : List Record → List Bool × Atlas α
  | [] => ([], m)
  | r :: rest =>
    let later := (m.insert r).2.insertAll rest
    ((m.insert r).1 :: later.1, later.2)

theorem insert_fst (m : Atlas α) (r : Record) : (m.insert r).1 = (m.get? r.boundary).isNone := by
  unfold insert get?
  simp

theorem insertAll_snd (m : Atlas α) (history : List Record) :
    (m.insertAll history).2 = history.foldl (fun m r => (m.insert r).2) m := by
  induction history generalizing m with
  | nil => rfl
  | cons r history ih => exact ih _

theorem length_insertAll (m : Atlas α) (history : List Record) :
    (m.insertAll history).1.length = history.length := by
  induction history generalizing m with
  | nil => rfl
  | cons r history ih => simp [insertAll, ih]

theorem getElem?_insertAll (m : Atlas α) (history : List Record) (i : Nat)
    (h : i < history.length) :
    (m.insertAll history).1[i]? =
      some ((m.insertAll (history.take i)).2.get? history[i].boundary).isNone := by
  induction history generalizing m i with
  | nil => simp at h
  | cons r history ih =>
    cases i with
    | zero => simp [insertAll, insert_fst]
    | succ i => exact ih (m.insert r).2 i (Nat.lt_of_succ_lt_succ h)

/-! ## Contents -/

theorem get?_insertAll_empty (d : Grid α) (maxKinks : Nat) (history : List Record)
    (b : GridBoundary) :
    ((empty d maxKinks).insertAll history).2.get? b =
      (history.find? fun r => r.boundary = b).map Record.label := by
  rw [insertAll_snd, get?_foldl_insert, get?_empty, Option.none_or]

/-- What an atlas keeps of the records that were added to it, if these are the ones it lists. -/
structure Keeps (m : Atlas α) (history records : List Record) : Prop where
  increasing : records.Pairwise fun r r' => r.boundary.Before r'.boundary
  once : ∀ b, (records.map Record.boundary).count b =
    if b ∈ history.map Record.boundary then 1 else 0
  anew : ∀ r ∈ records, m.get? r.boundary = some r.label ∧
    Machine.words.kinks r.boundary = some r.kinks
  size_eq : m.size = records.length
  positives_eq : m.positives = records.countP Record.label
  kinks : ∀ k, Machine.words.recordsWith m k = some (records.filter (·.kinks = k))
  perm : ∃ n, (∀ k, n ≤ k → records.filter (·.kinks = k) = []) ∧
    ((List.range n).flatMap fun k => records.filter (·.kinks = k)).Perm records

theorem nodup_boundaries (m : Atlas α) : (m.records.map Record.boundary).Nodup := by
  refine List.pairwise_map.mpr (m.records_sorted.imp ?_)
  intro r r' h heq
  rw [heq] at h
  exact GridBoundary.cmp_lt_irrefl _ h

theorem mem_boundaries_iff (m : Atlas α) (b : GridBoundary) :
    b ∈ m.records.map Record.boundary ↔ m.get? b ≠ none := by
  rw [List.mem_map, Option.ne_none_iff_exists']
  constructor
  · rintro ⟨r, hr, rfl⟩
    exact ⟨r.label, ((m.mem_records r).mp hr).1⟩
  · rintro ⟨label, h⟩
    exact ⟨⟨b, b.kinks, label⟩, (m.mem_records _).mpr ⟨h, rfl⟩, rfl⟩

theorem exists_recordsWith_perm (m : Atlas α) :
    ∃ n, (∀ k, n ≤ k → m.recordsWith k = []) ∧
      ((List.range n).flatMap m.recordsWith).Perm m.records := by
  obtain ⟨n, hn⟩ : ∃ n, ∀ r ∈ m.records, r.kinks < n := by
    refine ⟨(m.records.map Record.kinks).sum + 1, fun r hr => Nat.lt_succ_of_le ?_⟩
    exact List.single_le_sum (fun _ _ => Nat.zero_le _) _ (List.mem_map_of_mem hr)
  refine ⟨n, fun k hk => List.filter_eq_nil_iff.mpr fun r hr => ?_, m.recordsWith_perm n hn⟩
  have := hn r hr
  simp
  omega

theorem mem_boundaries_iff_history (m : Atlas α) (history : List Record)
    (h : ∀ b, m.get? b = (history.find? fun r => r.boundary = b).map Record.label)
    (b : GridBoundary) :
    b ∈ m.records.map Record.boundary ↔ b ∈ history.map Record.boundary := by
  rw [mem_boundaries_iff, h]
  simp

theorem boundaries_perm_dedup (m : Atlas α) (history : List Record)
    (h : ∀ b, m.get? b = (history.find? fun r => r.boundary = b).map Record.label) :
    (m.records.map Record.boundary).Perm (history.map Record.boundary).dedup := by
  refine (List.perm_ext_iff_of_nodup m.nodup_boundaries (List.nodup_dedup _)).mpr fun b => ?_
  rw [List.mem_dedup, m.mem_boundaries_iff_history history h]

theorem size_eq_dedup (m : Atlas α) (history : List Record)
    (h : ∀ b, m.get? b = (history.find? fun r => r.boundary = b).map Record.label) :
    m.size = (history.map Record.boundary).dedup.length := by
  rw [m.size_eq, ← (m.boundaries_perm_dedup history h).length_eq, List.length_map]

theorem positives_eq_dedup (m : Atlas α) (history : List Record)
    (h : ∀ b, m.get? b = (history.find? fun r => r.boundary = b).map Record.label) :
    m.positives = (history.map Record.boundary).dedup.countP fun b => m.get? b = some true := by
  rw [m.positives_eq, ← (m.boundaries_perm_dedup history h).countP_eq, List.countP_map]
  refine List.countP_congr fun r hr => ?_
  simp [((m.mem_records r).mp hr).1]

/-! ## Lists in machine words -/

theorem keeps_of_get? (m : Atlas α) (history : List Record)
    (h : ∀ b, m.get? b = (history.find? fun r => r.boundary = b).map Record.label)
    (hkinks : ∀ b, m.get? b ≠ none → (Machine.words.kinks b).isSome = true) :
    m.Keeps history m.records where
  increasing := m.records_sorted.imp fun hlt => (GridBoundary.cmp_eq_lt_iff _ _).mp hlt
  once b := by
    simp only [m.nodup_boundaries.count, m.mem_boundaries_iff_history history h]
  anew r hr := by
    obtain ⟨hlabel, hr⟩ := (m.mem_records r).mp hr
    refine ⟨hlabel, ?_⟩
    rw [hr]
    exact (Machine.sound_words.kinks _).eq_some
      (hkinks _ (by rw [hlabel]; exact Option.some_ne_none _))
  size_eq := m.size_eq
  positives_eq := m.positives_eq
  kinks k := Machine.recordsWith_eq m k fun b hb =>
    (Machine.sound_words.kinks b).eq_some (hkinks b hb)
  perm := m.exists_recordsWith_perm

/-- **Histories.** Whatever records are added to an empty atlas, in whatever order, a record is added
exactly if none before it has its boundary. In the end each boundary has the label of its first
record, and the size is the number of boundaries. In machine words the atlas can be listed exactly
if the kinks of all boundaries can be counted, as they can below the middle of the words. Then each
boundary is listed once, in order and with its own kinks, the size and the positives count what is
listed, and the lists for all numbers of kinks share it out. -/
theorem insertAll_keeps_first (d : Grid α) (maxKinks : Nat) (history : List Record) :
    let answers := ((empty d maxKinks).insertAll history).1
    let m := ((empty d maxKinks).insertAll history).2
    answers.length = history.length ∧
    (∀ i (h : i < history.length),
      answers[i]? = some true ↔ ∀ r ∈ history.take i, r.boundary ≠ history[i].boundary) ∧
    (∀ b, m.get? b = (history.find? fun r => r.boundary = b).map Record.label) ∧
    m.size = (history.map Record.boundary).dedup.length ∧
    m.positives = (history.map Record.boundary).dedup.countP (fun b => m.get? b = some true) ∧
    ((Machine.words.records m).isSome = true ↔
      ∀ r ∈ history, (Machine.words.kinks r.boundary).isSome = true) ∧
    ((∀ r ∈ history, ∀ p ∈ r.boundary.points, p.col < 2 ^ 31 ∧ p.row < 2 ^ 31) →
      (Machine.words.records m).isSome = true) ∧
    ∀ records ∈ Machine.words.records m, m.Keeps history records := by
  intro answers m
  have hget := get?_insertAll_empty d maxKinks history
  have hlisted : ∀ b, m.get? b ≠ none ↔ ∃ r ∈ history, r.boundary = b := by
    intro b
    rw [hget]
    simp
  have hrecords : (Machine.words.records m).isSome = true ↔
      ∀ r ∈ history, (Machine.words.kinks r.boundary).isSome = true := by
    simp only [Machine.records_isSome_iff, hlisted, forall_exists_index, and_imp, forall_apply_eq_imp_iff₂]
  refine ⟨length_insertAll _ _, fun i h => ?_, hget, ?_, ?_, hrecords, fun h => ?_, ?_⟩
  · rw [getElem?_insertAll _ _ i h, get?_insertAll_empty]
    simp
  · exact m.size_eq_dedup history hget
  · exact m.positives_eq_dedup history hget
  · exact hrecords.mpr fun r hr => Machine.kinks_isSome_of_lt r.boundary (h r hr)
  · intro records hrecords
    have hkinks := (Machine.records_isSome_iff m).mp (Option.isSome_iff_exists.mpr ⟨_, hrecords⟩)
    rw [Machine.records_eq m fun b hb => (Machine.sound_words.kinks b).eq_some (hkinks b hb),
      Option.mem_some_iff] at hrecords
    rw [← hrecords]
    exact m.keeps_of_get? history hget hkinks

theorem records_overflow_farCorner :
    ((empty Grid.halves 0).insertAll [⟨farCorner, 0, true⟩]).1 = [true] ∧
      ((empty Grid.halves 0).insertAll [⟨farCorner, 0, true⟩]).2.get? farCorner = some true ∧
      Machine.words.records ((empty Grid.halves 0).insertAll [⟨farCorner, 0, true⟩]).2 = none := by
  have hget := get?_insertAll_empty Grid.halves 0 [⟨farCorner, 0, true⟩] farCorner
  refine ⟨rfl, hget, ?_⟩
  rw [← Option.not_isSome_iff_eq_none, Machine.records_isSome_iff]
  intro h
  have hkinks := h farCorner (by rw [hget]; exact Option.some_ne_none true)
  revert hkinks
  decide

end Atlas

end BoundaryAtlas
