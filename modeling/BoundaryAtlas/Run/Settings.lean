import BoundaryAtlas.Json.Shapes
import BoundaryAtlas.Labeler.EnvelopeRule

/-!
# Run settings

Every setting of a run is optional, so that a file and the command line can each give a part.
The grid has no defaults, and all else has.
-/

namespace BoundaryAtlas

/-- The settings of a run, each given or not. -/
structure RunSettings where
  xSpacing? : Option Float := none
  numX? : Option Nat := none
  ySpacing? : Option Float := none
  numY? : Option Nat := none
  maxKinks? : Option Nat := none
  epsilon? : Option Float := none
  numPoints? : Option Nat := none
  rateBound? : Option Float := none
  timeoutMs? : Option Nat := none
  threads? : Option Nat := none
  invert? : Option Bool := none
  pointwiseLower? : Option Bool := none
  envelope? : Option (EnvelopeAnchors Float) := none
  deriving Repr

/-- Why a configuration is no use. -/
inductive ConfigFault where
  /-- Grid settings that were not given, by name. -/
  | missing (names : List String)
  | fault (fault : Fault Float)
  deriving DecidableEq, Repr

namespace RunSettings

/-- The settings of `top`, and those of `base` where `top` gives none. -/
def merge (base top : RunSettings) : RunSettings where
  xSpacing? := top.xSpacing?.or base.xSpacing?
  numX? := top.numX?.or base.numX?
  ySpacing? := top.ySpacing?.or base.ySpacing?
  numY? := top.numY?.or base.numY?
  maxKinks? := top.maxKinks?.or base.maxKinks?
  epsilon? := top.epsilon?.or base.epsilon?
  numPoints? := top.numPoints?.or base.numPoints?
  rateBound? := top.rateBound?.or base.rateBound?
  timeoutMs? := top.timeoutMs?.or base.timeoutMs?
  threads? := top.threads?.or base.threads?
  invert? := top.invert?.or base.invert?
  pointwiseLower? := top.pointwiseLower?.or base.pointwiseLower?
  envelope? := top.envelope?.or base.envelope?

/-! ## What a run needs -/

/-- The grid settings that are not given. -/
def missing (c : RunSettings) : List String :=
  [("x_spacing", c.xSpacing?.isNone), ("num_x", c.numX?.isNone), ("y_spacing", c.ySpacing?.isNone),
    ("num_y", c.numY?.isNone)].filterMap fun (name, absent) => if absent then some name else none

/-- The grid, if it is given in full and is of use. -/
def grid (c : RunSettings) : Except ConfigFault (Grid Float) :=
  match c.xSpacing?, c.numX?, c.ySpacing?, c.numY? with
  | some xSpacing, some numX, some ySpacing, some numY =>
    let d : Grid Float := ⟨xSpacing, numX, ySpacing, numY⟩
    match d.validate with
    | .ok () => .ok d
    | .error fault => .error (.fault fault)
  | _, _, _, _ => .error (.missing c.missing)

def traceConfig (c : RunSettings) : TraceConfig Float :=
  let base : TraceConfig Float := .default
  { base with
    epsilon := c.epsilon?.getD base.epsilon
    numPoints := c.numPoints?.getD base.numPoints
    rateBound? := c.rateBound?.or base.rateBound? }

def solverConfig (c : RunSettings) : SolverConfig Float :=
  { SolverConfig.default with timeoutMs? := c.timeoutMs? }

def envelope (c : RunSettings) : Except (Fault Float) (Envelope Float) :=
  match c.envelope? with
  | some anchors => Envelope.ofAnchors anchors
  | none => .ok .canonical

def rule (c : RunSettings) : Except (Fault Float) (EnvelopeRule Float) := do
  return ⟨← c.envelope, if c.pointwiseLower?.getD false then .pointwise else .eventually⟩

def inverts (c : RunSettings) : Bool := c.invert?.getD false

/-! ## JSON -/

variable (J : JsonLibrary)

def names : List String :=
  ["x_spacing", "num_x", "y_spacing", "num_y", "max_kinks", "epsilon", "num_points", "rate_bound",
    "timeout_ms", "threads", "invert", "pointwise_lower", "envelope"]

def toJson (c : RunSettings) : J.Value :=
  J.record (names.zip [J.option J.float c.xSpacing?, J.option J.nat c.numX?,
    J.option J.float c.ySpacing?, J.option J.nat c.numY?, J.option J.nat c.maxKinks?,
    J.option J.float c.epsilon?, J.option J.nat c.numPoints?, J.option J.float c.rateBound?,
    J.option J.nat c.timeoutMs?, J.option J.nat c.threads?, J.option J.bool c.invert?,
    J.option J.bool c.pointwiseLower?, J.option (EnvelopeAnchors.toJson J) c.envelope?])

/-- A name that is no setting is refused. -/
def ofJson? (v : J.Value) : Option RunSettings :=
  match J.fields? true names v with
  | some [xSpacing, numX, ySpacing, numY, maxKinks, epsilon, numPoints, rateBound, timeoutMs,
      threads, invert, pointwiseLower, envelope] => do
    return {
      xSpacing? := ← J.optional J.float? xSpacing
      numX? := ← J.optional (J.word? 32) numX
      ySpacing? := ← J.optional J.float? ySpacing
      numY? := ← J.optional (J.word? 32) numY
      maxKinks? := ← J.optional (J.word? 64) maxKinks
      epsilon? := ← J.optional J.float? epsilon
      numPoints? := ← J.optional (J.word? 64) numPoints
      rateBound? := ← J.optional J.float? rateBound
      timeoutMs? := ← J.optional (J.word? 64) timeoutMs
      threads? := ← J.optional (J.word? 64) threads
      invert? := ← J.optional J.bool? invert
      pointwiseLower? := ← J.optional J.bool? pointwiseLower
      envelope? := ← J.optional (EnvelopeAnchors.ofJson? J) envelope }
  | _ => none

end RunSettings

end BoundaryAtlas
