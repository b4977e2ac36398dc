import BoundaryAtlas.Decimal.Layout
import BoundaryAtlas.Fault

/-!
# The text of a fault
-/

namespace BoundaryAtlas

open Decimal (plainText)

def Side.name : Side → String
  | .upper => "upper"
  | .lower => "lower"

def EnvelopeFault.message : EnvelopeFault Float → String
  | .fewAnchors count => s!"need at least two anchors, got {count}"
  | .infiniteAnchor => "anchors must be finite"
  | .unorderedAnchors => "anchor x must be strictly increasing"
  | .uncovered side lo hi start stop =>
    s!"{side.name} curve spans [{plainText lo}, {plainText hi}] but traces need " ++
      s!"[{plainText start}, {plainText stop}]"
  | .stated reason => reason

def GridFault.message : GridFault Float → String
  | .xSpacing value => s!"x_spacing must be > 0, got {plainText value}"
  | .ySpacing value => s!"y_spacing must be > 0, got {plainText value}"
  | .noCells numX numY => s!"num_x and num_y must be >= 1, got {numX} and {numY}"
  | .horizon width stop =>
    s!"grid spans x in [0, {plainText width}] but traces run over [0, {plainText stop}]"
  | .stated reason => reason

def ParamFault.message : ParamFault Float → String
  | .noPoints => "boundary needs at least one point"
  | .infinitePoint => "boundary points must be finite"
  | .unorderedPoints => "boundary x must be non-decreasing"
  | .noSamples => "cannot build a boundary from zero samples"
  | .gridSpan numX => s!"grid boundary must span x-index 0 to {numX}"
  | .unorderedGrid => "grid boundary x-index must be non-decreasing"
  | .epsilon value => s!"epsilon must be > 0, got {plainText value}"
  | .fewSamples count => s!"num_points must be >= 2, got {count}"
  | .rateBound value => s!"rate_bound must be >= 0, got {plainText value}"
  | .stateBounds => "state bounds must satisfy min <= max"
  | .horizon value => s!"horizon must be > 0, got {plainText value}"
  | .tooManyKinks kinks maxKinks columns =>
    s!"{kinks} kinks exceed the {maxKinks} a {columns}-column grid allows"
  | .noAcceptedDraw kinks draws => s!"no boundary with {kinks} kinks accepted after {draws} draws"
  | .lineOutsideBox => "positive line leaves the parameter box"
  | .lineLabeledNegative labeler =>
    "generated positive example is labeled negative by '" ++ labeler ++ "'"
  | .workers reason => s!"thread pool: {reason}"
  | .stated reason => reason

def Fault.message : Fault Float → String
  | .gridIndex col row numX numY =>
    s!"grid index ({col}, {row}) outside grid [0, {numX}] x [0, {numY}]"
  | .outsideDomain t lo hi =>
    s!"time {plainText t} outside boundary domain [{plainText lo}, {plainText hi}]"
  | .unsatisfiable sample =>
    s!"no trace satisfies the dynamics constraints (first empty sample: {sample})"
  | .solverTimeout elapsedMs => s!"solver gave up after {elapsedMs} ms (reason: timeout)"
  | .envelope reason => s!"malformed envelope: {reason.message}"
  | .grid reason => s!"invalid grid dimensions: {reason.message}"
  | .param reason => s!"invalid parameters: {reason.message}"
  | .cancelled => "run cancelled"

end BoundaryAtlas
