import RenderMesh.Compare
import RenderMesh.File.Job
import RenderMesh.Fixture
import RenderMesh.Pack.Events
import RenderMesh.Packed.Json

/-!
# Meshes in files

Fixtures are loaded, packed meshes are saved and loaded back, and a fixture is compared with a saved
reference. The first fault ends the work.
-/

namespace RenderMesh

open Json (Value)

/-- Why work with files ends early. -/
inductive ExchangeFault where
  | file (path : String) (fault : FileFault)
  | json (fault : Json.Fault)
  | mismatch (found : Mismatch)
deriving DecidableEq

def ExchangeFault.message : ExchangeFault → String
  | .file path fault => "failed to read or write " ++ path ++ ": " ++ fault.message
  | .json fault => "invalid JSON: " ++ fault.message
  | .mismatch found => found.message

abbrev Exchange (α : Type) := ExceptT ExchangeFault Job α

namespace Exchange

/-- A result that may be a fault. -/
def ofExcept {ε α : Type} (fault : ε → ExchangeFault) (found : Except ε α) : Exchange α :=
  .mk (.done (found.mapError fault))

def emit (outputs : List Output) : Exchange Unit := liftM (Job.emitAll outputs)

def report (events : List Event) : Exchange Unit := emit (events.map .event)

def readText (path : String) : Exchange String :=
  .mk (.read path fun found => .done (found.mapError (.file path)))

def writeText (path text : String) : Exchange Unit :=
  .mk (.write path text fun found => .done (found.mapError (.file path)))

/-- The fixture of a file (`load_fixture`). -/
def loadFixture (path : String) : Exchange Fixture := do
  let text ← readText path
  let fixture ← ofExcept .json (Fixture.parse text)
  report
    [.fixtureLoaded fixture.name path fixture.mesh.triangleCount fixture.mesh.materials.size]
  return fixture

/-- The summary of a file, which may be of any making (`load_packed_json`). -/
def loadSummary (path : String) : Exchange Value := do
  let text ← readText path
  ofExcept .json (Value.read text)

/-- Writes the summary of a packed mesh to a file (`save_packed`). -/
def saveSummary (path : String) (packed : PackedMesh) (summarised : Option PackReport) :
    Exchange Unit := do
  writeText path (packed.summary summarised).pretty
  report [.packedWritten path]

def pack (mesh : Mesh) : Exchange (PackedMesh × PackReport) := do
  report mesh.packEvents
  return mesh.packWithReport

def compare (actual expected : Value) (tolerance : Double) : Exchange Unit := do
  report (Compare.events actual expected tolerance)
  ofExcept .mismatch (Compare.run actual expected tolerance)

/-- Packs the fixture of a file and compares the result with the summary of another, as `run` of
`compare_packing` does. -/
def compareFiles (fixturePath referencePath : String) (tolerance : Double) : Exchange Unit := do
  let fixture ← loadFixture fixturePath
  let (packed, _) ← pack fixture.mesh
  let reference ← loadSummary referencePath
  compare (packed.summary none) reference tolerance

end Exchange

end RenderMesh
