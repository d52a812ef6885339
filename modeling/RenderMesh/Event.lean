import RenderMesh.Corner
import RenderMesh.Number.Style
import RenderMesh.Text.Terminal

/-!
# Events

What is reported while meshes are packed, kept in files and compared. Events are values that stand
beside the results and never decide them; a reader asks for a level and sees that much.
-/

namespace RenderMesh

inductive Level where
  | info
  | debug
  | trace
deriving DecidableEq, Repr

namespace Level

def name : Level → String
  | .info => "INFO"
  | .debug => "DEBUG"
  | .trace => "TRACE"

/-- Greater for more detail. -/
def detail : Level → Nat
  | .info => 0
  | .debug => 1
  | .trace => 2

end Level

inductive Event where
  | nothingToPack
  | deduplicated (given kept : Nat)
  | triangleDropped (number : Nat) (material : UInt32)
  | trianglesDropped (count : Nat)
  | attributeShifted (place : Nat) (index : UInt32)
  | cornerFellBack (place : Nat) (corner : Corner)
  | welded (corners vertices reused : Nat)
  | packed (vertices triangles materials : Nat)
  | fixtureLoaded (name path : String) (triangles materials : Nat)
  | packedWritten (path : String)
  | countMatches (field : String) (value : Int)
  | numbersMatch (field : String) (count : Nat) (tolerance : Double)
  | entriesMatch (field : String) (count : Nat)
  | texturesMatch (count : Nat)
deriving DecidableEq

namespace Event

def level : Event → Level
  | .triangleDropped .. | .attributeShifted .. | .cornerFellBack .. => .trace
  | .nothingToPack | .deduplicated .. | .trianglesDropped .. | .welded .. | .packed ..
  | .fixtureLoaded .. => .debug
  | .packedWritten .. | .countMatches .. | .numbersMatch .. | .entriesMatch ..
  | .texturesMatch .. => .info

def message : Event → String
  | .nothingToPack => "Nothing to pack: no corner indices or no materials"
  | .deduplicated given kept => s!"Deduplicated materials: {given} in, {kept} out"
  | .triangleDropped number material =>
    s!"Dropping triangle {number}: material index {material} out of range"
  | .trianglesDropped count => s!"Dropped {count} triangles with invalid material indices"
  | .attributeShifted place index =>
    s!"Corner {place}: attribute index {index} shifted to {Corner.shifted index}"
  | .cornerFellBack place ⟨positionIndex, attributeIndex⟩ =>
    s!"Corner {place}: indices ({positionIndex}, {attributeIndex}) out of range, using (0, 0)"
  | .welded corners vertices reused =>
    s!"Welded {corners} corners into {vertices} vertices ({reused} reused)"
  | .packed vertices triangles materials =>
    s!"Packed mesh: {vertices} vertices, {triangles} triangles, {materials} materials"
  | .fixtureLoaded name path triangles materials =>
    "Loaded fixture '" ++ name ++ "' from " ++ path
      ++ s!": {triangles} triangles, {materials} materials"
  | .packedWritten path => "Wrote packed mesh to " ++ path
  | .countMatches field value => s!"{field}: {value}"
  | .numbersMatch field count tolerance =>
    s!"{field}: {count} values match (tolerance={tolerance.display})"
  | .entriesMatch field count => s!"{field}: {count} values match"
  | .texturesMatch count => s!"mesh.materials: {count} textures match"

def line (event : Event) : String := event.level.name ++ " " ++ event.message

/-- An event as a tool prints it, whatever names it holds. -/
def printed (event : Event) : String := Text.inert event.line

/-- Whether a reader of a level sees an event. -/
def visible (level : Level) (event : Event) : Bool := event.level.detail ≤ level.detail

end Event

end RenderMesh
