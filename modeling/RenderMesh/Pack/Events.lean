import RenderMesh.Event
import RenderMesh.Pack

/-!
# Events of packing

Each step of packing has its events, a function of what the step is given.
-/

namespace RenderMesh

namespace Triangle

/-- Triangles without a valid material, from triangle `t` on, as far as triangles are collected. -/
def droppedFrom (remap : Array UInt32) : Nat → List UInt32 → List Event
  | _, [] => []
  | t, index :: rest =>
    match remap[index.toNat]? with
    | none => .triangleDropped t index :: droppedFrom remap (t + 1) rest
    | some _ => if 3 * t < reach then droppedFrom remap (t + 1) rest else []

def collectEvents (indices remap : Array UInt32) : List Event :=
  let dropped := indices.size - (collect indices remap).length
  droppedFrom remap 0 indices.toList ++ if 0 < dropped then [.trianglesDropped dropped] else []

end Triangle

def MaterialTable.event (materials : Array Material) : Event :=
  .deduplicated materials.size (MaterialTable.ofMaterials materials).materials.size

namespace Mesh

/-- Events of the corner at a place of the corner streams. -/
def cornerEvents (mesh : Mesh) (place : Nat) : List Event :=
  match mesh.corner? place with
  | none => []
  | some corner =>
    let resolved := mesh.resolve corner
    (if resolved.corrected then [.attributeShifted place corner.attributeIndex] else []) ++
      if resolved.resolution = .fallback then [.cornerFellBack place corner] else []

def weldEvents (mesh : Mesh) (triangles : List Triangle) : List Event :=
  let welded := Welder.weld mesh triangles
  (triangles.flatMap fun triangle =>
    [0, 1, 2].flatMap fun c => mesh.cornerEvents (triangle.baseCorner.toNat + c))
    ++ [.welded welded.indices.size (welded.vertices.size / Vertex.stride) welded.weldedCorners]

def packEvents (mesh : Mesh) : List Event :=
  if mesh.isPackable then
    let packed := mesh.pack
    MaterialTable.event mesh.materials
      :: Triangle.collectEvents mesh.triangleMaterials mesh.materialTable.remap
      ++ mesh.weldEvents mesh.sortedTriangles
      ++ [.packed packed.vertexCount packed.triangleCount packed.materials.size]
  else [.nothingToPack]

end Mesh

end RenderMesh
