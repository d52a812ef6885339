import RenderMesh.Mesh.Json

/-!
# Fixtures

A fixture is a mesh with a name, kept as JSON (`MeshFixture`). Parts that are left out are empty, so
a fixture need not say more than what it is about.
-/

namespace RenderMesh

open Json (Codec RecordField Record)

structure Fixture where
  name : String := ""
  mesh : Mesh := {}
deriving DecidableEq

namespace Fixture

/-- Whether a fixture says nothing. -/
def isEmpty (fixture : Fixture) : Bool :=
  fixture.name.isEmpty && fixture.mesh.positions.isEmpty && fixture.mesh.attributes.isEmpty
    && fixture.mesh.cornerPositions.isEmpty && fixture.mesh.cornerAttributes.isEmpty
    && fixture.mesh.triangleMaterials.isEmpty && fixture.mesh.materials.isEmpty

def meshField {α : Type} (name : String) (codec : Codec α) (get : Mesh → α)
    (set : Mesh → α → Mesh) : RecordField Fixture :=
  .of name codec (fun f => get f.mesh) fun f a => { f with mesh := set f.mesh a }

def record : Record Fixture where
  name := "MeshFixture"
  fields :=
    [.of "name" .string name fun f a => { f with name := a },
     meshField "positions" (.array Vec3.codec) Mesh.positions fun m a =>
       { m with positions := a },
     meshField "attributes" (.array VertexAttribute.codec) Mesh.attributes fun m a =>
       { m with attributes := a },
     meshField "corner_position_indices" (.array .word) Mesh.cornerPositions fun m a =>
       { m with cornerPositions := a },
     meshField "corner_attribute_indices" (.array .word) Mesh.cornerAttributes fun m a =>
       { m with cornerAttributes := a },
     meshField "triangle_material_indices" (.array .word) Mesh.triangleMaterials fun m a =>
       { m with triangleMaterials := a },
     meshField "materials" (.array Material.codec) Mesh.materials fun m a =>
       { m with materials := a }]
  initial := {}

def codec : Codec Fixture := record.codec

/-- The fixture of a JSON text (`parse_fixture`). -/
def parse (text : String) : Except Json.Fault Fixture := codec.parse text

def write (fixture : Fixture) : String := codec.write fixture

end Fixture

end RenderMesh
