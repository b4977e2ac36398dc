import BoundaryAtlas.Atlas.Survey
import BoundaryAtlas.Json.Shapes

/-!
# The document of an atlas

An atlas is kept as a document: the grid, the kink limit, the tallies and the records, both
in order. Any document can be loaded. Of two records with one boundary the first one counts,
of two tallies for one number of kinks the last one, and kinks are counted anew.
-/

namespace BoundaryAtlas

/-- The flat form of an atlas. -/
structure AtlasDocument (α : Type) where
  grid : Grid α
  maxKinks : Nat
  tallies : List (Nat × Tally)
  records : List Record
  deriving DecidableEq, Repr

/-- The document, with the kinks of each record counted anew. -/
@[specialize] def Machine.toDocument {m : Type → Type} [Monad m] (M : Machine m) {α : Type}
    (atlas : Atlas α) : m (AtlasDocument α) := do
  return ⟨atlas.grid, atlas.maxKinks, atlas.tallies.toList, ← M.records atlas⟩

namespace Atlas

variable {α : Type}

def toDocument (m : Atlas α) : AtlasDocument α := (Machine.ideal.toDocument m).run

def ofDocument (doc : AtlasDocument α) : Atlas α :=
  doc.records.foldl (fun m r => (m.insert r).2)
    (doc.tallies.foldl (fun m t => m.setTally t.1 t.2) (.empty doc.grid doc.maxKinks))

end Atlas

/-! ## Texts -/

namespace AtlasDocument

variable (J : JsonLibrary)

def toJson (doc : AtlasDocument Float) : J.Value :=
  J.record [("dims", doc.grid.toJson J), ("max_kinks", J.nat doc.maxKinks),
    ("stats", J.numbered (doc.tallies.map fun x => (x.1, x.2.toJson J))),
    ("records", J.list (doc.records.map (Record.toJson J)))]

def ofJson? (v : J.Value) : Option (AtlasDocument Float) :=
  match J.fields? false ["dims", "max_kinks", "stats", "records"] v with
  | some [grid, maxKinks, stats, records] => do
    return ⟨← J.required (Grid.ofJson? J) grid, ← J.required (J.word? 64) maxKinks,
      ← J.required (J.numberedOf? (Tally.ofJson? J)) stats,
      ← J.required (J.listOf? (Record.ofJson? J)) records⟩
  | _ => none

end AtlasDocument

/-- The text of the document. -/
@[specialize] def Machine.toText {m : Type → Type} [Monad m] (M : Machine m) (J : JsonLibrary)
    (style : Json.Style) (atlas : Atlas Float) : m String := do
  return J.write style ((← M.toDocument atlas).toJson J)

namespace Atlas

variable (J : JsonLibrary)

def toJson (m : Atlas Float) : J.Value := m.toDocument.toJson J

def ofJson? (v : J.Value) : Option (Atlas Float) := (AtlasDocument.ofJson? J v).map ofDocument

/-- Reads a document from text. -/
def ofText? (text : String) : Option (Atlas Float) := (J.read? text).bind (ofJson? J)

end Atlas

end BoundaryAtlas
