import BoundaryAtlas.Proofs.Atlas.Conservation
import BoundaryAtlas.Proofs.Atlas.Machines
import BoundaryAtlas.Proofs.Json.Lawful
import BoundaryAtlas.Proofs.Json.Shapes

/-!
# Atlases and their documents

An atlas is the one that its document is loaded to, and the one that the text of its document is
read to, with any lawful library. A document from elsewhere may name a boundary twice, in any order,
with any kinks: loading takes the first of its labels.
-/

namespace BoundaryAtlas

/-! ## Finding by a key -/

section Finding

variable {β κ : Type} [DecidableEq κ] {l : List β} {key : β → κ} {k : κ}

theorem mem_and_key_of_find? {x : β} (h : (l.find? fun x => key x = k) = some x) :
    x ∈ l ∧ key x = k :=
  ⟨List.mem_of_find?_eq_some h, by simpa using List.find?_some h⟩

theorem map_find?_eq {γ : Type} {value : β → γ} (look : κ → Option γ)
    (h : ∀ k v, look k = some v ↔ ∃ x ∈ l, key x = k ∧ value x = v) (k : κ) :
    (l.find? fun x => key x = k).map value = look k := by
  cases hfind : l.find? fun x => key x = k with
  | some x =>
    obtain ⟨hx, hkey⟩ := mem_and_key_of_find? hfind
    exact ((h k (value x)).mpr ⟨x, hx, hkey, rfl⟩).symm
  | none =>
    cases hlook : look k with
    | none => rfl
    | some v =>
      obtain ⟨x, hx, hkey, -⟩ := (h k v).mp hlook
      exact absurd (decide_eq_true hkey) (List.find?_eq_none.mp hfind x hx)

end Finding

namespace Atlas

variable {α : Type}

/-! ## Loading -/

theorem get?_foldl_insert (records : List Record) (m : Atlas α) (b : GridBoundary) :
    (records.foldl (fun m r => (m.insert r).2) m).get? b =
      (m.get? b).or ((records.find? fun r => r.boundary = b).map Record.label) := by
  induction records generalizing m with
  | nil => simp
  | cons r records ih =>
    rw [List.foldl_cons, ih, get?_insert, List.find?_cons]
    by_cases hb : r.boundary = b
    · simp only [hb, if_true, decide_true, Option.map_some]
      cases m.get? b <;> rfl
    · simp [hb]

theorem frame_foldl_insert (records : List Record) (m : Atlas α) :
    (records.foldl (fun m r => (m.insert r).2) m).grid = m.grid ∧
      (records.foldl (fun m r => (m.insert r).2) m).maxKinks = m.maxKinks ∧
      (records.foldl (fun m r => (m.insert r).2) m).tallies = m.tallies := by
  induction records generalizing m with
  | nil => exact ⟨rfl, rfl, rfl⟩
  | cons r records ih => exact ih (m.insert r).2

theorem tally?_setTally (m : Atlas α) (kinks : Nat) (t : Tally) (k : Nat) :
    (m.setTally kinks t).tally? k = if kinks = k then some t else m.tally? k := by
  simp only [setTally, tally?, Std.ExtTreeMap.getElem?_insert, compare_eq_iff_eq]

theorem tally?_foldl_setTally (tallies : List (Nat × Tally)) (m : Atlas α) (k : Nat) :
    (tallies.foldl (fun m t => m.setTally t.1 t.2) m).tally? k =
      ((tallies.reverse.find? fun t => t.1 = k).map Prod.snd).or (m.tally? k) := by
  induction tallies generalizing m with
  | nil => rfl
  | cons t tallies ih =>
    rw [List.foldl_cons, ih, tally?_setTally, List.reverse_cons, List.find?_append]
    cases tallies.reverse.find? (fun t => t.1 = k) with
    | some _ => rfl
    | none => by_cases hk : t.1 = k <;> simp [hk]

theorem frame_foldl_setTally (tallies : List (Nat × Tally)) (m : Atlas α) :
    (tallies.foldl (fun m t => m.setTally t.1 t.2) m).grid = m.grid ∧
      (tallies.foldl (fun m t => m.setTally t.1 t.2) m).maxKinks = m.maxKinks ∧
      (tallies.foldl (fun m t => m.setTally t.1 t.2) m).labels = m.labels := by
  induction tallies generalizing m with
  | nil => exact ⟨rfl, rfl, rfl⟩
  | cons t tallies ih => exact ih (m.setTally t.1 t.2)

section Documents

variable (doc : AtlasDocument α)

@[simp] theorem grid_ofDocument : (ofDocument doc).grid = doc.grid :=
  (frame_foldl_insert _ _).1.trans (frame_foldl_setTally _ _).1

@[simp] theorem maxKinks_ofDocument : (ofDocument doc).maxKinks = doc.maxKinks :=
  (frame_foldl_insert _ _).2.1.trans (frame_foldl_setTally _ _).2.1

theorem get?_ofDocument (b : GridBoundary) :
    (ofDocument doc).get? b = (doc.records.find? fun r => r.boundary = b).map Record.label := by
  have hempty : (doc.tallies.foldl (fun m t => m.setTally t.1 t.2)
      (empty doc.grid doc.maxKinks)).get? b = none := by
    rw [get?, (frame_foldl_setTally _ _).2.2]
    exact get?_empty doc.grid doc.maxKinks b
  rw [ofDocument, get?_foldl_insert, hempty, Option.none_or]

theorem tally?_ofDocument (k : Nat) :
    (ofDocument doc).tally? k = (doc.tallies.reverse.find? fun t => t.1 = k).map Prod.snd := by
  have hempty : (empty doc.grid doc.maxKinks).tally? k = none := Std.ExtTreeMap.getElem?_empty
  rw [ofDocument, tally?, (frame_foldl_insert _ _).2.2]
  exact (tally?_foldl_setTally _ _ k).trans (by rw [hempty, Option.or_none])

end Documents

theorem ofDocument_toDocument (m : Atlas α) : ofDocument m.toDocument = m := by
  refine ext (grid_ofDocument _) (maxKinks_ofDocument _) (fun b => ?_) ?_
  · rw [get?_ofDocument]
    refine map_find?_eq m.get? (fun b label => ⟨fun h => ?_, ?_⟩) b
    · exact ⟨⟨b, b.kinks, label⟩, (m.mem_records _).mpr ⟨h, rfl⟩, rfl, rfl⟩
    · rintro ⟨r, hr, rfl, rfl⟩
      exact ((m.mem_records r).mp hr).1
  · refine Std.ExtTreeMap.ext_getElem? fun k => (tally?_ofDocument m.toDocument k).trans ?_
    refine map_find?_eq m.tally? (fun k t => ⟨fun h => ?_, ?_⟩) k
    · exact ⟨(k, t), List.mem_reverse.mpr
        (Std.ExtTreeMap.mem_toList_iff_getElem?_eq_some.mpr h), rfl, rfl⟩
    · rintro ⟨⟨k, t⟩, hkt, rfl, rfl⟩
      exact Std.ExtTreeMap.mem_toList_iff_getElem?_eq_some.mp (List.mem_reverse.mp hkt)

end Atlas

/-! ## Words -/

theorem GridBoundary.IsCanonical.isWords {α : Type} {d : Grid α} {kinks : Nat} {b : GridBoundary}
    (h : b.IsCanonical d kinks) (hgrid : d.IsWords) (hkinks : kinks ≤ d.kinkLimit) :
    b.IsWords where
  points p hp := ⟨Nat.lt_of_le_of_lt (h.nodes p hp).1 hgrid.1,
    Nat.lt_of_le_of_lt (h.nodes p hp).2 hgrid.2⟩
  length_lt := by
    have hnumX : d.numX < 2 ^ 32 := hgrid.1
    have hlimit : kinks ≤ 2 * d.numX := hkinks
    have hlength : b.points.length < 2 ^ 64 := by
      rw [h.length_eq]
      omega
    exact hlength

theorem Tally.Counts.isWords {α : Type} {t : Tally} {outcomes : List (Outcome α)}
    (h : t.Counts outcomes) (hlength : outcomes.length < twoPow 64) : t.IsWords := by
  have hall := h.all
  have hpositives : t.positives ≤ t.labeled := by
    rw [h.positives, h.labeled]
    exact List.countP_le_length
  constructor <;> omega

namespace Atlas

variable {α : Type}

/-- The numbers in an atlas fit into their words. -/
structure IsWords (m : Atlas α) : Prop where
  grid : m.grid.IsWords
  maxKinks : m.maxKinks < twoPow 64
  boundaries : ∀ b label, m.get? b = some label → b.IsWords
  tallies : ∀ k t, m.tally? k = some t → k < twoPow 64 ∧ t.IsWords

theorem IsWords.toDocument {m : Atlas α} (h : m.IsWords) : m.toDocument.IsWords where
  grid := h.grid
  maxKinks := h.maxKinks
  tallies x hx := h.tallies x.1 x.2 (Std.ExtTreeMap.mem_toList_iff_getElem?_eq_some.mp hx)
  records r hr := by
    obtain ⟨hlabel, hkinks⟩ := (m.mem_records r).mp hr
    have hboundary := h.boundaries r.boundary r.label hlabel
    exact ⟨hboundary, hkinks ▸ hboundary.kinks_lt⟩

theorem isWords_empty {d : Grid α} (hgrid : d.IsWords) {maxKinks : Nat}
    (hmax : maxKinks < twoPow 64) : (empty d maxKinks).IsWords where
  grid := hgrid
  maxKinks := hmax
  boundaries b label h := by
    rw [get?_empty] at h
    cases h
  tallies k t h := by
    rw [tally?, empty, Std.ExtTreeMap.getElem?_empty] at h
    cases h

theorem isWords_ofDocument {doc : AtlasDocument α} (h : doc.IsWords) :
    (ofDocument doc).IsWords where
  grid := by
    rw [grid_ofDocument]
    exact h.grid
  maxKinks := by
    rw [maxKinks_ofDocument]
    exact h.maxKinks
  boundaries b label hb := by
    rw [get?_ofDocument] at hb
    obtain ⟨r, hr, -⟩ := Option.map_eq_some_iff.mp hb
    obtain ⟨hmem, rfl⟩ := mem_and_key_of_find? hr
    exact (h.records r hmem).boundary
  tallies k t hk := by
    rw [tally?_ofDocument] at hk
    obtain ⟨x, hx, rfl⟩ := Option.map_eq_some_iff.mp hk
    obtain ⟨hmem, rfl⟩ := mem_and_key_of_find? hx
    exact h.tallies x (List.mem_reverse.mp hmem)

namespace IsWords

variable {m : Atlas α}

theorem insert (h : m.IsWords) {r : Record} (hr : r.boundary.IsWords) :
    (m.insert r).2.IsWords where
  grid := h.grid
  maxKinks := h.maxKinks
  boundaries b label hb := by
    rw [get?_insert] at hb
    split at hb
    · rename_i heq
      exact heq ▸ hr
    · exact h.boundaries b label hb
  tallies := h.tallies

theorem insertOutcomes (h : m.IsWords) {outcomes : List (Outcome α)}
    (ho : ∀ o ∈ outcomes, o.boundary.IsWords) : (outcomes.foldl insertOutcome m).IsWords := by
  induction outcomes generalizing m with
  | nil => exact h
  | cons o outcomes ih =>
    obtain ⟨hfirst, hrest⟩ := List.forall_mem_cons.mp ho
    refine ih ?_ hrest
    cases o with
    | labeled r => exact h.insert hfirst
    | failed b fault => exact h

theorem setTally (h : m.IsWords) {kinks : Nat} (hkinks : kinks < twoPow 64) {t : Tally}
    (ht : t.IsWords) : (m.setTally kinks t).IsWords where
  grid := h.grid
  maxKinks := h.maxKinks
  boundaries := h.boundaries
  tallies k t' hk := by
    rw [tally?_setTally] at hk
    split at hk
    · rename_i heq
      exact ⟨heq ▸ hkinks, Option.some.inj hk ▸ ht⟩
    · exact h.tallies k t' hk

theorem addPasses (h : m.IsWords) {reports : Nat → List (Outcome α)} {count kinks : Nat}
    (hcount : kinks + count ≤ twoPow 64)
    (hreports : ∀ k, kinks ≤ k → k < kinks + count →
      (∀ o ∈ reports k, o.boundary.IsWords) ∧ (reports k).length < twoPow 64) :
    (m.addPasses reports count kinks).IsWords := by
  induction count generalizing kinks m with
  | zero => exact h
  | succ count ih =>
    obtain ⟨hboundaries, hlength⟩ := hreports kinks (Nat.le_refl _) (by omega)
    refine ih ?_ (by omega) fun k hk hk' => hreports k (by omega) (by omega)
    rw [addPass_def]
    exact (h.insertOutcomes hboundaries).setTally (by omega)
      ((Tally.counts_foldl _).isWords hlength)

end IsWords

/-- The atlas of a survey fits into words if its grid does and its passes are not too long. -/
theorem isWords_of_mayGiveTimed [Scalar α] {σ : Type} {p : Pipeline α σ} {d : Grid α}
    {config : SurveyConfig} {m : Atlas α} (hgrid : d.IsWords) (hmax : config.maxKinks < twoPow 64)
    (hpasses : ∀ k ≤ Pipeline.lastPass d config, (Search.new d k).toList.length < twoPow 64)
    (h : p.MayGiveTimed d config m) : m.IsWords := by
  obtain ⟨reports, hreports, rfl⟩ := h
  have hlast : Pipeline.lastPass d config ≤ config.maxKinks ∧
      Pipeline.lastPass d config ≤ d.kinkLimit := ⟨Nat.min_le_left _ _, Nat.min_le_right _ _⟩
  refine (isWords_empty hgrid hmax).addPasses (by omega) fun k _ hk => ?_
  have hreport := (hreports k (by omega)).isReport
  constructor
  · intro o ho
    have hcanonical := (Search.mem_toList_new d k _).mp (hreport.boundary_mem ho)
    exact hcanonical.isWords hgrid (by omega)
  · have hlength := hreport.boundaries.length_eq
    rw [List.length_map] at hlength
    rw [hlength]
    exact hpasses k (by omega)

/-! ## Reachable atlases -/

/-- The atlases that come from the empty one by adding records, from surveys, and from documents. All
numbers fit into the words that keep them, and the outcomes of a pass into the memory. -/
inductive Reachable [Scalar α] : Atlas α → Prop
  | new (d : Grid α) (maxKinks : Nat) (hgrid : d.IsWords) (hmax : maxKinks < twoPow 64) :
      Reachable (empty d maxKinks)
  | insert (m : Atlas α) (r : Record) (hm : Reachable m) (hr : r.boundary.IsWords) :
      Reachable (m.insert r).2
  /-- A survey in machine words, or one whose outcomes come in any order and whose solver runs out of
  time at any of them. -/
  | survey {σ : Type} (p : Pipeline α σ) (d : Grid α) (config : SurveyConfig) (m : Atlas α)
      (hgrid : d.IsWords) (hmax : config.maxKinks < twoPow 64)
      (hpasses : ∀ k ≤ Pipeline.lastPass d config, (Search.new d k).toList.length < twoPow 64)
      (h : (∃ pool stop s s', Machine.words.survey p d config pool stop s = some (.ok m, s')) ∨
        p.MayGiveTimed d config m) :
      Reachable m
  | load (doc : AtlasDocument α) (h : doc.IsWords) : Reachable (ofDocument doc)

theorem Reachable.isWords [Scalar α] {m : Atlas α} (h : Reachable m) : m.IsWords := by
  induction h with
  | new d maxKinks hgrid hmax => exact isWords_empty hgrid hmax
  | insert m r hm hr ih => exact ih.insert hr
  | survey p d config m hgrid hmax hpasses h =>
    refine isWords_of_mayGiveTimed hgrid hmax hpasses (.of_survey (h.imp_left ?_))
    rintro ⟨pool, stop, s, s', hrun⟩
    exact ⟨stop, s, congrArg Prod.fst (Machine.sound_words.survey_ok p d hrun)⟩
  | load doc h => exact isWords_ofDocument h

/-! ## Texts -/

theorem nodup_keys_tallies (m : Atlas α) : (m.toDocument.tallies.map Prod.fst).Nodup := by
  rw [List.Nodup, List.pairwise_map]
  exact Std.ExtTreeMap.distinct_keys_toList.imp fun hne heq => hne (compare_eq_iff_eq.mpr heq)

theorem IsWords.carries_toJson {J : JsonLibrary} (hJ : J.IsLawful) {m : Atlas Float} (h : m.IsWords)
    (hx : J.ReadsBack m.grid.xSpacing) (hy : J.ReadsBack m.grid.ySpacing) :
    J.Carries (ofJson? J) (m.toJson J) m := by
  have hdoc := AtlasDocument.carries_toJson hJ h.toDocument m.nodup_keys_tallies hx hy
  refine ⟨hdoc.written, ?_⟩
  rw [ofJson?, toJson, hdoc.value, Option.map_some, ofDocument_toDocument]

theorem agrees_toDocument (m : Atlas α) :
    Machine.Agrees (Machine.words.toDocument m) m.toDocument :=
  (Machine.sound_words.records m).bind (Machine.agrees_some _)

theorem toDocument_isSome_iff (m : Atlas α) :
    (Machine.words.toDocument m).isSome = true ↔
      ∀ b, m.get? b ≠ none → (Machine.words.kinks b).isSome = true := by
  rw [← Machine.records_isSome_iff, Machine.toDocument]
  cases Machine.words.records m <;> rfl

end Atlas

namespace Atlas

open Machine

/-- **Round trip.** In machine words an atlas has a document exactly if the kinks of its boundaries
can be counted. Then it is the atlas that its document is loaded to, and the records of the document
are in order. If it can be reached, and the library reads its spacings back, then the text of the
document is read to the atlas again. Any document at all has, once it is loaded, for each boundary
the label of its first record, and it is written and loaded without change, again if the kinks can
be counted. -/
theorem document_round_trip (J : JsonLibrary) (hJ : J.IsLawful) :
    (∀ m : Atlas Float,
      ((words.toDocument m).isSome = true ↔
        ∀ b, m.get? b ≠ none → (words.kinks b).isSome = true) ∧
      ∀ doc ∈ words.toDocument m, ofDocument doc = m ∧ Record.Sorted doc.records ∧
        (Reachable m → m.grid.IsFinite → m.grid.ReadsBack J → ∀ style,
          ∃ text, words.toText J style m = some text ∧ ofText? J text = some m)) ∧
    ∀ doc : AtlasDocument Float,
      (∀ b, (ofDocument doc).get? b =
        (doc.records.find? fun r => r.boundary = b).map Record.label) ∧
      ((words.toDocument (ofDocument doc)).isSome = true ↔
        ∀ r ∈ doc.records, (words.kinks r.boundary).isSome = true) ∧
      ∀ again ∈ words.toDocument (ofDocument doc), ofDocument again = ofDocument doc := by
  refine ⟨fun m => ⟨m.toDocument_isSome_iff, fun doc hdoc => ?_⟩, fun doc =>
    ⟨get?_ofDocument doc, ?_, fun again hagain => ?_⟩⟩
  · obtain rfl := m.agrees_toDocument doc hdoc
    refine ⟨m.ofDocument_toDocument, m.records_sorted, fun hm hfinite hback style => ?_⟩
    refine ⟨J.write style (m.toJson J), ?_, ?_⟩
    · rw [toText, hdoc]
      rfl
    · exact (hm.isWords.carries_toJson hJ (hback.1 hfinite.1) (hback.2 hfinite.2)).read_write hJ style
  · rw [toDocument_isSome_iff]
    simp [get?_ofDocument]
  · rw [agrees_toDocument _ again hagain, ofDocument_toDocument]

/-- A label that was added to an empty atlas, and a document that names its boundary twice. -/
theorem document_round_trip_twice :
    let J := Json.library
    let d : Grid Float := ⟨5, 4, 0.125, 8⟩
    let b : GridBoundary := ⟨[⟨0, 0⟩, ⟨2, 3⟩, ⟨4, 0⟩]⟩
    let m := ((empty d 2).insert ⟨b, 1, true⟩).2
    let doc : AtlasDocument Float := ⟨d, 2, [], [⟨b, 7, false⟩, ⟨b, 1, true⟩]⟩
    J.IsLawful ∧ Reachable m ∧ d.IsFinite ∧ d.ReadsBack J ∧
      (∃ text, words.toText J .compact m = some text ∧ ofText? J text = some m) ∧
      (ofDocument doc).get? b = some false ∧
      ∃ again ∈ words.toDocument (ofDocument doc), ofDocument again = ofDocument doc := by
  intro J d b m doc
  have hwords : b.IsWords := ⟨by decide, by decide⟩
  have hreach : Reachable m := .insert _ _ (.new d 2 ⟨by decide, by decide⟩ (by decide)) hwords
  have hfinite : d.IsFinite := ⟨by decide +kernel, by decide +kernel⟩
  have hback : d.ReadsBack J :=
    ⟨fun _ style => by cases style <;> decide +kernel,
      fun _ style => by cases style <;> decide +kernel⟩
  have hkinks : (words.kinks b).isSome = true := by decide
  obtain ⟨hatlas, hdoc⟩ := document_round_trip J Json.library_isLawful
  obtain ⟨hiff, hdocument⟩ := hatlas m
  have hget (b' : GridBoundary) : m.get? b' ≠ none → b' = b := by
    intro h
    by_contra hne
    refine h ?_
    rw [get?_insert, if_neg (Ne.symm hne), get?_empty]
  obtain ⟨written, hwritten⟩ := Option.isSome_iff_exists.mp
    (hiff.mpr fun b' hb' => hget b' hb' ▸ hkinks)
  obtain ⟨hlabel, hagain, hsame⟩ := hdoc doc
  obtain ⟨again, hload⟩ := Option.isSome_iff_exists.mp (hagain.mpr (by simp [doc, hkinks]))
  exact ⟨Json.library_isLawful, hreach, hfinite, hback,
    (hdocument written hwritten).2.2 hreach hfinite hback .compact, hlabel b,
    again, hload, hsame again hload⟩

/-- A corner that reaches as far as the words do. Its area does not fit into a signed word. -/
def farCorner : GridBoundary := ⟨[⟨0, 0⟩, ⟨4294967295, 0⟩, ⟨4294967295, 4294967295⟩]⟩

theorem toDocument_overflows_farCorner :
    let d : Grid Float := ⟨1, 1, 1, 1⟩
    let m := ((empty d 0).insert ⟨farCorner, 1, true⟩).2
    Reachable m ∧ d.IsFinite ∧ m.get? farCorner = some true ∧ words.toDocument m = none := by
  intro d m
  have hwords : farCorner.IsWords := ⟨by decide, by decide⟩
  have hget : m.get? farCorner = some true := by
    rw [get?_insert, if_pos rfl, get?_empty]
    rfl
  refine ⟨.insert _ _ (.new d 0 ⟨by decide, by decide⟩ (by decide)) hwords,
    ⟨by decide +kernel, by decide +kernel⟩, hget, ?_⟩
  rw [← Option.not_isSome_iff_eq_none, toDocument_isSome_iff]
  intro h
  have hkinks := h farCorner (by rw [hget]; exact Option.some_ne_none true)
  revert hkinks
  decide

end Atlas

end BoundaryAtlas
