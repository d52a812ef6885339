import RenderMesh.File.Exchange

/-!
# Commands

One command packs a fixture, prints what came out and saves it if asked to; the other compares a
packed fixture with a reference and prints the verdict. A command ends in a code: zero for success,
one for a fault.
-/

namespace RenderMesh

def Vec3.display (v : Vec3) : String :=
  "[" ++ v.x.display ++ ", " ++ v.y.display ++ ", " ++ v.z.display ++ "]"

structure PackCommand where
  fixture : String
  output : Option String
  /-- Whether the report is printed and saved. -/
  report : Bool
deriving DecidableEq, Repr

/-- Compares a packed fixture with a reference. -/
structure CompareCommand where
  fixture : String
  reference : String
  tolerance : Double
deriving DecidableEq

namespace PackCommand

/-- What is printed of a packed fixture. -/
def meshLines (command : PackCommand) (fixture : Fixture) (packed : PackedMesh) : List String :=
  [s!"Mesh: {command.fixture}",
   s!"  - Vertices: {packed.vertexCount}",
   s!"  - Indices: {packed.indices.size}",
   s!"  - Triangles: {packed.triangleCount}",
   s!"  - Materials: {packed.materials.size} (from {fixture.mesh.materials.size})",
   s!"  - Draw ranges: {packed.drawRanges.size}"]
    ++ packed.bounds.toList.map fun (lower, upper) =>
      s!"  - Bounds: {lower.display} .. {upper.display}"

def reportLines (report : PackReport) : List String :=
  ["Report:",
   s!"  - Merged materials: {report.mergedMaterials}",
   s!"  - Dropped triangles: {report.droppedTriangles}",
   s!"  - Skipped corners: {report.skippedCorners}",
   s!"  - Corrected attributes: {report.correctedAttributes}",
   s!"  - Fallback corners: {report.fallbackCorners}",
   s!"  - Welded corners: {report.weldedCorners}"]

/-- The steps of `run` of `pack_mesh`. -/
def work (command : PackCommand) : Exchange Unit := do
  let fixture ← Exchange.loadFixture command.fixture
  let (packed, report) ← Exchange.pack fixture.mesh
  Exchange.emit ((command.meshLines fixture packed).map .line)
  if command.report then Exchange.emit ((reportLines report).map .line)
  match command.output with
  | some path => Exchange.saveSummary path packed (if command.report then some report else none)
  | none => return ()

/-- The `main` of `pack_mesh`: a fault goes to the lines of errors. -/
def job (command : PackCommand) : Job Nat := do
  match ← command.work.run with
  | .ok _ => return 0
  | .error fault => .emit (.errorLine ("Error: " ++ fault.message)) (.done 1)

end PackCommand

namespace CompareCommand

/-- The `main` of `compare_packing`: a fault is the verdict that is printed. -/
def job (command : CompareCommand) : Job Nat := do
  Job.emitAll [.line s!"=== Comparing {command.fixture} ===", .line ""]
  match ← (Exchange.compareFiles command.fixture command.reference command.tolerance).run with
  | .ok _ => .emit (.line "All comparisons PASSED!") (.done 0)
  | .error fault => .emit (.line ("FAILED: " ++ fault.message)) (.done 1)

end CompareCommand

end RenderMesh
