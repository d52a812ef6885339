import RenderMesh.Mesh

/-!
# Vertices

A packed vertex is eight numbers: position, normal and texture coordinates (`to_floats`,
`from_floats`).
-/

namespace RenderMesh

structure Vertex where
  position : Vec3
  normal : Vec3
  uv : Vec2
deriving DecidableEq, Inhabited

namespace Vertex

def stride : Nat := 8

/-- The vertex of a position and an attribute (`new`). -/
def ofAttribute (position : Vec3) (shading : VertexAttribute) : Vertex :=
  ⟨position, shading.normal, shading.uv⟩

def floats (v : Vertex) : List Single := v.position.floats ++ v.normal.floats ++ v.uv.floats

/-- The vertex at the start of a list of numbers. -/
def ofFloats? : List Single → Option Vertex
  | px :: py :: pz :: nx :: ny :: nz :: u :: v :: _ => some ⟨⟨px, py, pz⟩, ⟨nx, ny, nz⟩, ⟨u, v⟩⟩
  | _ => none

theorem length_floats (v : Vertex) : v.floats.length = stride := rfl

theorem ofFloats?_floats_append (v : Vertex) (rest : List Single) :
    ofFloats? (v.floats ++ rest) = some v := rfl

end Vertex

/-- The vertex of a corner in range. Where a mesh has no positions or no attributes, the zero
position or the default attribute stands in. -/
def Mesh.vertex (mesh : Mesh) (corner : Corner) : Vertex :=
  .ofAttribute (mesh.positions[corner.positionIndex.toNat]?.getD default)
    (mesh.attributes[corner.attributeIndex.toNat]?.getD default)

end RenderMesh
