import BoundaryAtlas.Proofs.Grid.Draws
import BoundaryAtlas.Proofs.Json.Library
import BoundaryAtlas.Atlas.Document

/-!
# Written values read back

With a lawful library, the values that an atlas is made of are read back from what they are written
as, if their numbers fit into their words.
-/

namespace BoundaryAtlas

open JsonLibrary

variable {J : JsonLibrary} (hJ : J.IsLawful)

/-! ## Grids and boundaries -/

namespace Grid

/-- The numbers fit into their words. -/
def IsWords {α : Type} (d : Grid α) : Prop := d.numX < twoPow 32 ∧ d.numY < twoPow 32

/-- Both spacings are finite. -/
def IsFinite (d : Grid Float) : Prop := d.xSpacing.isFinite = true ∧ d.ySpacing.isFinite = true

/-- The library reads the spacings back if they are finite. -/
def ReadsBack (d : Grid Float) (J : JsonLibrary) : Prop :=
  (d.xSpacing.isFinite = true → J.ReadsBack d.xSpacing) ∧
    (d.ySpacing.isFinite = true → J.ReadsBack d.ySpacing)

include hJ in
theorem carries_toJson {d : Grid Float} (h : d.IsWords) (hx : J.ReadsBack d.xSpacing)
    (hy : J.ReadsBack d.ySpacing) : J.Carries (ofJson? J) (d.toJson J) d := by
  have hx := hJ.carries_float hx
  have hy := hJ.carries_float hy
  have hnumX := hJ.carries_nat (by decide) h.1
  have hnumY := hJ.carries_nat (by decide) h.2
  refine hJ.carries_record ["x_spacing", "num_x", "y_spacing", "num_y"] [_, _, _, _]
    (by decide) (by decide) rfl
    (by simp [hx.written, hy.written, hnumX.written, hnumY.written]) fun v hv => ?_
  rw [ofJson?, hv]
  simp [required, hx.value, hy.value, hnumX.value, hnumY.value]

end Grid

/-- The numbers fit into their words. -/
def GridPoint.IsWords (p : GridPoint) : Prop := p.col < twoPow 32 ∧ p.row < twoPow 32

instance (p : GridPoint) : Decidable p.IsWords :=
  inferInstanceAs (Decidable (p.col < twoPow 32 ∧ p.row < twoPow 32))

include hJ in
theorem GridPoint.carries_toJson {p : GridPoint} (h : p.IsWords) :
    J.Carries (ofJson? J) (p.toJson J) p := by
  have hcol := hJ.carries_nat (by decide) h.1
  have hrow := hJ.carries_nat (by decide) h.2
  refine ⟨.list _ (by simp [hcol.written, hrow.written]), ?_⟩
  simp only [ofJson?, toJson, pair?, hJ.list?_list, hcol.value, hrow.value]
  rfl

namespace GridBoundary

/-- The nodes fit into their words, and there are not too many of them to count. -/
structure IsWords (b : GridBoundary) : Prop where
  points : ∀ p ∈ b.points, p.IsWords
  length_lt : b.points.length < twoPow 64

theorem IsWords.kinks_lt {b : GridBoundary} (h : b.IsWords) : b.kinks < twoPow 64 := by
  have hkinks : b.kinks ≤ b.points.length - 2 := turns_le b.points
  have hlength := h.length_lt
  omega

include hJ in
theorem carries_toJson {b : GridBoundary} (h : b.IsWords) :
    J.Carries (ofJson? J) (b.toJson J) b := by
  have hpoints := hJ.carries_list fun p hp => GridPoint.carries_toJson hJ (h.points p hp)
  refine hJ.carries_record ["pts"] [_] (by decide) (by decide) rfl
    (by simp [hpoints.written]) fun v hv => ?_
  rw [ofJson?, hv]
  simp [required, hpoints.value]

end GridBoundary

/-! ## Documents -/

namespace Tally

structure IsWords (t : Tally) : Prop where
  labeled : t.labeled < twoPow 64
  positives : t.positives < twoPow 64
  infeasible : t.infeasible < twoPow 64
  timedOut : t.timedOut < twoPow 64
  invalid : t.invalid < twoPow 64

include hJ in
theorem carries_toJson {t : Tally} (h : t.IsWords) : J.Carries (ofJson? J) (t.toJson J) t := by
  have hcarries {n : Nat} (hn : n < twoPow 64) := hJ.carries_nat (le_refl 64) hn
  refine hJ.carries_record ["labeled", "positives", "infeasible", "timed_out", "invalid"]
    [_, _, _, _, _] (by decide) (by decide) rfl
    (by simp [(hcarries h.labeled).written, (hcarries h.positives).written,
      (hcarries h.infeasible).written, (hcarries h.timedOut).written,
      (hcarries h.invalid).written]) fun v hv => ?_
  rw [ofJson?, hv]
  simp [required, (hcarries h.labeled).value, (hcarries h.positives).value,
    (hcarries h.infeasible).value, (hcarries h.timedOut).value, (hcarries h.invalid).value]

end Tally

namespace Record

structure IsWords (r : Record) : Prop where
  boundary : r.boundary.IsWords
  kinks : r.kinks < twoPow 64

include hJ in
theorem carries_toJson {r : Record} (h : r.IsWords) : J.Carries (ofJson? J) (r.toJson J) r := by
  have hboundary := GridBoundary.carries_toJson hJ h.boundary
  have hkinks := hJ.carries_nat (le_refl 64) h.kinks
  have hlabel := hJ.carries_bool r.label
  refine hJ.carries_record ["boundary", "kinks", "label"] [_, _, _]
    (by decide) (by decide) rfl
    (by simp [hboundary.written, hkinks.written, hlabel.written]) fun v hv => ?_
  rw [ofJson?, hv]
  simp [required, hboundary.value, hkinks.value, hlabel.value]

end Record

namespace AtlasDocument

structure IsWords {α : Type} (doc : AtlasDocument α) : Prop where
  grid : doc.grid.IsWords
  maxKinks : doc.maxKinks < twoPow 64
  tallies : ∀ x ∈ doc.tallies, x.1 < twoPow 64 ∧ x.2.IsWords
  records : ∀ r ∈ doc.records, r.IsWords

include hJ in
theorem carries_toJson {doc : AtlasDocument Float} (h : doc.IsWords)
    (hnodup : (doc.tallies.map Prod.fst).Nodup) (hx : J.ReadsBack doc.grid.xSpacing)
    (hy : J.ReadsBack doc.grid.ySpacing) : J.Carries (ofJson? J) (doc.toJson J) doc := by
  have hgrid := Grid.carries_toJson hJ h.grid hx hy
  have hmax := hJ.carries_nat (le_refl 64) h.maxKinks
  have htallies := hJ.carries_numbered hnodup fun x hx =>
    ⟨(h.tallies x hx).1, Tally.carries_toJson hJ (h.tallies x hx).2⟩
  have hrecords := hJ.carries_list fun r hr => Record.carries_toJson hJ (h.records r hr)
  refine hJ.carries_record ["dims", "max_kinks", "stats", "records"] [_, _, _, _]
    (by decide) (by decide) rfl
    (by simp [hgrid.written, hmax.written, htallies.written, hrecords.written]) fun v hv => ?_
  rw [ofJson?, hv]
  simp [required, hgrid.value, hmax.value, htallies.value, hrecords.value]

end AtlasDocument

end BoundaryAtlas
