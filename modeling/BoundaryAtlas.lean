import BoundaryAtlas.Atlas.Basic
import BoundaryAtlas.Atlas.Document
import BoundaryAtlas.Atlas.Outcome
import BoundaryAtlas.Atlas.Survey
import BoundaryAtlas.Atlas.Tally
import BoundaryAtlas.Boundary.Basic
import BoundaryAtlas.Boundary.Inversion
import BoundaryAtlas.Boundary.Simplify
import BoundaryAtlas.Boundary.Value
import BoundaryAtlas.CommandLine.Arguments
import BoundaryAtlas.CommandLine.Command
import BoundaryAtlas.CommandLine.Execute
import BoundaryAtlas.Decimal.Binary
import BoundaryAtlas.Decimal.Fixed
import BoundaryAtlas.Decimal.Layout
import BoundaryAtlas.Decimal.Parse
import BoundaryAtlas.Decimal.Reading
import BoundaryAtlas.Decimal.Rounding
import BoundaryAtlas.Decimal.Shortest
import BoundaryAtlas.Envelope.Basic
import BoundaryAtlas.Envelope.Curve
import BoundaryAtlas.Fault
import BoundaryAtlas.Fault.Message
import BoundaryAtlas.Files.Path
import BoundaryAtlas.Files.Pattern
import BoundaryAtlas.Files.Selection
import BoundaryAtlas.Files.System
import BoundaryAtlas.Grid.Basic
import BoundaryAtlas.Grid.Boundary
import BoundaryAtlas.Grid.Key
import BoundaryAtlas.Grid.Sample
import BoundaryAtlas.Grid.Search
import BoundaryAtlas.Grid.Words
import BoundaryAtlas.Json.Basic
import BoundaryAtlas.Json.Fields
import BoundaryAtlas.Json.Library
import BoundaryAtlas.Json.Printer
import BoundaryAtlas.Json.Reader
import BoundaryAtlas.Json.Shapes
import BoundaryAtlas.Labeler.Basic
import BoundaryAtlas.Labeler.EnvelopeRule
import BoundaryAtlas.Labeler.Prompt
import BoundaryAtlas.Machine
import BoundaryAtlas.Main
import BoundaryAtlas.Pipeline.Basic
import BoundaryAtlas.Pipeline.ReferenceLine
import BoundaryAtlas.Point
import BoundaryAtlas.Power
import BoundaryAtlas.Proofs.Agreement
import BoundaryAtlas.Proofs.Atlas.AnyOrder
import BoundaryAtlas.Proofs.Atlas.Conservation
import BoundaryAtlas.Proofs.Atlas.Contents
import BoundaryAtlas.Proofs.Atlas.Demands
import BoundaryAtlas.Proofs.Atlas.Documents
import BoundaryAtlas.Proofs.Atlas.Finished
import BoundaryAtlas.Proofs.Atlas.Histories
import BoundaryAtlas.Proofs.Atlas.InOrder
import BoundaryAtlas.Proofs.Atlas.Machines
import BoundaryAtlas.Proofs.Atlas.Passes
import BoundaryAtlas.Proofs.Atlas.Reports
import BoundaryAtlas.Proofs.Atlas.Skipped
import BoundaryAtlas.Proofs.Atlas.Stopping
import BoundaryAtlas.Proofs.Atlas.Surfacing
import BoundaryAtlas.Proofs.Atlas.Turned
import BoundaryAtlas.Proofs.Atlas.Widened
import BoundaryAtlas.Proofs.Atlas.Workers
import BoundaryAtlas.Proofs.Boundary.Deletion
import BoundaryAtlas.Proofs.Boundary.Deviation
import BoundaryAtlas.Proofs.Boundary.Extension
import BoundaryAtlas.Proofs.Boundary.HalfTurn
import BoundaryAtlas.Proofs.Boundary.Interpolation
import BoundaryAtlas.Proofs.Boundary.Range
import BoundaryAtlas.Proofs.Boundary.Reflection
import BoundaryAtlas.Proofs.Boundary.Simplification
import BoundaryAtlas.Proofs.Boundary.Turns
import BoundaryAtlas.Proofs.Comparison
import BoundaryAtlas.Proofs.Decimal.Digits
import BoundaryAtlas.Proofs.Envelope.Curve
import BoundaryAtlas.Proofs.Exact
import BoundaryAtlas.Proofs.Grid.Canonical
import BoundaryAtlas.Proofs.Grid.Continuations
import BoundaryAtlas.Proofs.Grid.Draws
import BoundaryAtlas.Proofs.Grid.Enumeration
import BoundaryAtlas.Proofs.Grid.HalfTurn
import BoundaryAtlas.Proofs.Grid.Keys
import BoundaryAtlas.Proofs.Grid.Listing
import BoundaryAtlas.Proofs.Grid.Overflow
import BoundaryAtlas.Proofs.Grid.Place
import BoundaryAtlas.Proofs.Grid.Room
import BoundaryAtlas.Proofs.Grid.Sampling
import BoundaryAtlas.Proofs.Grid.Scan
import BoundaryAtlas.Proofs.Grid.Turns
import BoundaryAtlas.Proofs.Grid.Uniqueness
import BoundaryAtlas.Proofs.Grid.Words
import BoundaryAtlas.Proofs.Grid.Wraparound
import BoundaryAtlas.Proofs.Grid.Zigzag
import BoundaryAtlas.Proofs.Json.Floats
import BoundaryAtlas.Proofs.Json.Lawful
import BoundaryAtlas.Proofs.Json.Library
import BoundaryAtlas.Proofs.Json.Printed
import BoundaryAtlas.Proofs.Json.Shapes
import BoundaryAtlas.Proofs.Labeler.Conversation
import BoundaryAtlas.Proofs.Labeler.Coverage
import BoundaryAtlas.Proofs.Labeler.Verdict
import BoundaryAtlas.Proofs.Pipeline.Faults
import BoundaryAtlas.Proofs.Pipeline.Labeling
import BoundaryAtlas.Proofs.Pipeline.Machines
import BoundaryAtlas.Proofs.Pipeline.OnGrid
import BoundaryAtlas.Proofs.Pipeline.Reduction
import BoundaryAtlas.Proofs.Pipeline.ReferenceLine
import BoundaryAtlas.Proofs.Pipeline.Soundness
import BoundaryAtlas.Proofs.Plane.Length
import BoundaryAtlas.Proofs.Plane.Segment
import BoundaryAtlas.Proofs.Plane.Straight
import BoundaryAtlas.Proofs.Plane.TimeAxis
import BoundaryAtlas.Proofs.Plane.Trail
import BoundaryAtlas.Proofs.Random.Choices
import BoundaryAtlas.Proofs.Random.Seeds
import BoundaryAtlas.Proofs.Rounding
import BoundaryAtlas.Proofs.Sums
import BoundaryAtlas.Proofs.Table.Agreement
import BoundaryAtlas.Proofs.Table.Lawful
import BoundaryAtlas.Proofs.Table.Library
import BoundaryAtlas.Proofs.Table.Reading
import BoundaryAtlas.Proofs.Trace.BackwardSweep
import BoundaryAtlas.Proofs.Trace.BeyondEnds
import BoundaryAtlas.Proofs.Trace.Feasibility
import BoundaryAtlas.Proofs.Trace.ForwardSweep
import BoundaryAtlas.Proofs.Trace.HalfTurn
import BoundaryAtlas.Proofs.Trace.Nearest
import BoundaryAtlas.Proofs.Trace.OnTarget
import BoundaryAtlas.Proofs.Trace.Solution
import BoundaryAtlas.Proofs.Trace.Synthesis
import BoundaryAtlas.Proofs.Trace.Targets
import BoundaryAtlas.Proofs.Trace.Tracking
import BoundaryAtlas.Proofs.Trace.Unbounded
import BoundaryAtlas.Random.Choice
import BoundaryAtlas.Random.Seed
import BoundaryAtlas.Random.Source
import BoundaryAtlas.Random.Stream
import BoundaryAtlas.Run.Provenance
import BoundaryAtlas.Run.Settings
import BoundaryAtlas.Scalar
import BoundaryAtlas.Table.Basic
import BoundaryAtlas.Table.Cell
import BoundaryAtlas.Table.Columns
import BoundaryAtlas.Table.Csv
import BoundaryAtlas.Table.Library
import BoundaryAtlas.Table.Summary
import BoundaryAtlas.Table.Value
import BoundaryAtlas.Text.Blank
import BoundaryAtlas.Text.Digit
import BoundaryAtlas.Trace.Chain
import BoundaryAtlas.Trace.Config
import BoundaryAtlas.Trace.Constraints
import BoundaryAtlas.Trace.Synthesis
