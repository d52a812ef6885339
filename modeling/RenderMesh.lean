import RenderMesh.Compare
import RenderMesh.File.Exchange
import RenderMesh.Fixture
import RenderMesh.Main
import RenderMesh.Pack
import RenderMesh.Pack.Events
import RenderMesh.Packed.Json
import RenderMesh.Tool
import RenderMesh.Proofs.Corner
import RenderMesh.Proofs.FirstAppearance
import RenderMesh.Proofs.Welder.History
import RenderMesh.Proofs.Welder.Numbering
import RenderMesh.Proofs.Packed.Vertices
import RenderMesh.Proofs.Unwelded
import RenderMesh.Proofs.DrawRange
import RenderMesh.Proofs.Welder.DrawRanges
import RenderMesh.Proofs.Welder.Ties
import RenderMesh.Proofs.Kept
import RenderMesh.Proofs.Material.Table
import RenderMesh.Proofs.Welder.Counts
import RenderMesh.Proofs.Upload
import RenderMesh.Proofs.Repair
import RenderMesh.Proofs.Report
import RenderMesh.Proofs.WholeTriangles
import RenderMesh.Proofs.Material.Deduplication
import RenderMesh.Proofs.Deduplicated
import RenderMesh.Proofs.Repacking
import RenderMesh.Proofs.Number.Rounding
import RenderMesh.Proofs.Number.Codes
import RenderMesh.Proofs.Number.Value
import RenderMesh.Proofs.Number.Closeness
import RenderMesh.Proofs.Number.Grid
import RenderMesh.Proofs.Number.Bracket
import RenderMesh.Proofs.Number.Shortest
import RenderMesh.Proofs.Number.Scaling
import RenderMesh.Proofs.Json.Literal
import RenderMesh.Proofs.Json.Number
import RenderMesh.Proofs.Json.Decimal
import RenderMesh.Proofs.Json.Halfway
import RenderMesh.Proofs.Json.Single
import RenderMesh.Proofs.Json.Narrowed
import RenderMesh.Proofs.Json.Text
import RenderMesh.Proofs.Json.Sequence
import RenderMesh.Proofs.Json.Members
import RenderMesh.Proofs.Json.Value
import RenderMesh.Proofs.Json.Document
import RenderMesh.Proofs.Json.Rendering
import RenderMesh.Proofs.Json.Restoring
import RenderMesh.Proofs.Json.Record
import RenderMesh.Proofs.Mesh.Json
import RenderMesh.Proofs.Material.Similarity
import RenderMesh.Proofs.Fixture
import RenderMesh.Proofs.Packed.Json
import RenderMesh.Proofs.Outcome
import RenderMesh.Proofs.Compare
import RenderMesh.Proofs.Packed.Agreement
import RenderMesh.Proofs.Packed.Sizes
import RenderMesh.Proofs.File.Exchange
import RenderMesh.Proofs.File.GoldenFile
import RenderMesh.Proofs.File.SavedMesh
import RenderMesh.Proofs.CommandLine
import RenderMesh.Proofs.Tool.Command
import RenderMesh.Proofs.Tool
import RenderMesh.Proofs.Matching
import RenderMesh.Proofs.Unseen
import RenderMesh.Proofs.Welder.Growth
import RenderMesh.Proofs.Collecting
import RenderMesh.Proofs.Compare.Places
import RenderMesh.Proofs.Compare.Settling
import RenderMesh.Proofs.Compare.FirstMismatch
import RenderMesh.Proofs.Compare.Tolerance
import RenderMesh.Proofs.Corner.Resolution
import RenderMesh.Proofs.Packed.Bounds
import RenderMesh.Proofs.Json.Spelling
import RenderMesh.Proofs.Json.Steady
import RenderMesh.Proofs.Json.Progress
import RenderMesh.Proofs.Json.Skip
import RenderMesh.Proofs.Json.Grammar
import RenderMesh.Proofs.Json.Taken.Scalar
import RenderMesh.Proofs.Json.Taken.Record
import RenderMesh.Proofs.Json.Written
import RenderMesh.Proofs.Json.Partial
import RenderMesh.Proofs.Fixture.Partial
