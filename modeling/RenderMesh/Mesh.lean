import RenderMesh.Corner
import RenderMesh.Material

/-!
# Meshes

A mesh as it is decoded (`RawMesh`): positions and attributes are indexed separately, corner `c` of
triangle `t` stands at `3 * t + c` in both corner streams. Nothing is promised of lengths or
indices.
-/

namespace RenderMesh

/-- Shading data of a corner. Light is carried along and not packed. -/
structure VertexAttribute where
  normal : Vec3 := default
  uv : Vec2 := default
  light : UInt32 := 0
deriving DecidableEq

instance : Inhabited VertexAttribute := ⟨{}⟩

structure Mesh where
  positions : Array Vec3 := #[]
  attributes : Array VertexAttribute := #[]
  cornerPositions : Array UInt32 := #[]
  cornerAttributes : Array UInt32 := #[]
  triangleMaterials : Array UInt32 := #[]
  materials : Array Material := #[]
deriving DecidableEq

namespace Mesh

/-- As many triangles as there are material indices (`triangle_count`). -/
def triangleCount (mesh : Mesh) : Nat := mesh.triangleMaterials.size

/-- As many corners as both streams have (`corner_count`). -/
def cornerCount (mesh : Mesh) : Nat :=
  min mesh.cornerPositions.size mesh.cornerAttributes.size

/-- The corner at a place of both streams. -/
def corner? (mesh : Mesh) (place : Nat) : Option Corner :=
  match mesh.cornerPositions[place]?, mesh.cornerAttributes[place]? with
  | some positionIndex, some attributeIndex => some ⟨positionIndex, attributeIndex⟩
  | _, _ => none

/-- The corner that stands in for a corner of the mesh. -/
def resolve (mesh : Mesh) (corner : Corner) : ResolvedCorner :=
  corner.resolve mesh.positions.size mesh.attributes.size

end Mesh

end RenderMesh
