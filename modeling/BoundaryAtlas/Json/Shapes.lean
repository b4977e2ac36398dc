import BoundaryAtlas.Atlas.Survey
import BoundaryAtlas.Envelope.Basic
import BoundaryAtlas.Json.Library
import BoundaryAtlas.Random.Seed

/-!
# The JSON shapes of the library's values

With any library, each value is written with its fields in a fixed order, and read back by their
names.
-/

namespace BoundaryAtlas

variable (J : JsonLibrary)

/-! ## Grids -/

def Grid.toJson (d : Grid Float) : J.Value :=
  J.record [("x_spacing", J.float d.xSpacing), ("num_x", J.nat d.numX),
    ("y_spacing", J.float d.ySpacing), ("num_y", J.nat d.numY)]

def Grid.ofJson? (v : J.Value) : Option (Grid Float) :=
  match J.fields? false ["x_spacing", "num_x", "y_spacing", "num_y"] v with
  | some [xSpacing, numX, ySpacing, numY] => do
    return ⟨← J.required J.float? xSpacing, ← J.required (J.word? 32) numX,
      ← J.required J.float? ySpacing, ← J.required (J.word? 32) numY⟩
  | _ => none

def GridPoint.toJson (p : GridPoint) : J.Value := J.list [J.nat p.col, J.nat p.row]

def GridPoint.ofJson? (v : J.Value) : Option GridPoint :=
  (J.pair? (J.word? 32) (J.word? 32) v).map fun (col, row) => ⟨col, row⟩

def GridBoundary.toJson (b : GridBoundary) : J.Value :=
  J.record [("pts", J.list (b.points.map (GridPoint.toJson J)))]

def GridBoundary.ofJson? (v : J.Value) : Option GridBoundary :=
  match J.fields? false ["pts"] v with
  | some [points] => (J.required (J.listOf? (GridPoint.ofJson? J)) points).map GridBoundary.mk
  | _ => none

/-! ## The plane -/

def Point.toJson (p : Point Float) : J.Value := J.pair p.x p.y

def Point.ofJson? (v : J.Value) : Option (Point Float) :=
  (J.pair? J.float? J.float? v).map fun (x, y) => ⟨x, y⟩

def Interval.toJson (i : Interval Float) : J.Value := J.pair i.lo i.hi

def Interval.ofJson? (v : J.Value) : Option (Interval Float) :=
  (J.pair? J.float? J.float? v).map fun (lo, hi) => ⟨lo, hi⟩

def Box.toJson (b : Box Float) : J.Value := J.record [("x", b.x.toJson J), ("y", b.y.toJson J)]

def Box.ofJson? (v : J.Value) : Option (Box Float) :=
  match J.fields? false ["x", "y"] v with
  | some [x, y] => do
    return ⟨← J.required (Interval.ofJson? J) x, ← J.required (Interval.ofJson? J) y⟩
  | _ => none

def EnvelopeAnchors.toJson (s : EnvelopeAnchors Float) : J.Value :=
  J.record [("upper", J.list (s.upper.map (Point.toJson J))),
    ("lower", J.list (s.lower.map (Point.toJson J)))]

def EnvelopeAnchors.ofJson? (v : J.Value) : Option (EnvelopeAnchors Float) :=
  match J.fields? false ["upper", "lower"] v with
  | some [upper, lower] => do
    return ⟨← J.required (J.listOf? (Point.ofJson? J)) upper,
      ← J.required (J.listOf? (Point.ofJson? J)) lower⟩
  | _ => none

/-! ## Runs -/

def DrawKey.toJson (t : DrawKey) : J.Value :=
  J.record [("seed", J.nat t.seed.toNat), ("index", J.nat t.index.toNat)]

def DrawKey.ofJson? (v : J.Value) : Option DrawKey :=
  match J.fields? false ["seed", "index"] v with
  | some [seed, index] => do
    return ⟨(← J.required (J.word? 64) seed).toUInt64, (← J.required (J.word? 64) index).toUInt64⟩
  | _ => none

def SurveyConfig.toJson (c : SurveyConfig) : J.Value :=
  J.record [("max_kinks", J.nat c.maxKinks), ("threads", J.option J.nat c.threads?)]

def SurveyConfig.ofJson? (v : J.Value) : Option SurveyConfig :=
  match J.fields? false ["max_kinks", "threads"] v with
  | some [maxKinks, threads] => do
    return ⟨← J.required (J.word? 64) maxKinks, ← J.optional (J.word? 64) threads⟩
  | _ => none

def Tally.toJson (t : Tally) : J.Value :=
  J.record [("labeled", J.nat t.labeled), ("positives", J.nat t.positives),
    ("infeasible", J.nat t.infeasible), ("timed_out", J.nat t.timedOut),
    ("invalid", J.nat t.invalid)]

def Tally.ofJson? (v : J.Value) : Option Tally :=
  match J.fields? false ["labeled", "positives", "infeasible", "timed_out", "invalid"] v with
  | some [labeled, positives, infeasible, timedOut, invalid] => do
    return ⟨← J.required (J.word? 64) labeled, ← J.required (J.word? 64) positives,
      ← J.required (J.word? 64) infeasible, ← J.required (J.word? 64) timedOut,
      ← J.required (J.word? 64) invalid⟩
  | _ => none

def Record.toJson (r : Record) : J.Value :=
  J.record [("boundary", r.boundary.toJson J), ("kinks", J.nat r.kinks), ("label", J.bool r.label)]

def Record.ofJson? (v : J.Value) : Option Record :=
  match J.fields? false ["boundary", "kinks", "label"] v with
  | some [boundary, kinks, label] => do
    return ⟨← J.required (GridBoundary.ofJson? J) boundary, ← J.required (J.word? 64) kinks,
      ← J.required J.bool? label⟩
  | _ => none

end BoundaryAtlas
