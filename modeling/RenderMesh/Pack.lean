import RenderMesh.Material.Table
import RenderMesh.Welder

/-!
# Packing

Packing deduplicates materials, collects the triangles, groups them by material and welds their
corners. It never fails: what is malformed makes a smaller or a visibly wrong mesh.
-/

namespace RenderMesh.Mesh

def isPackable (mesh : Mesh) : Bool := mesh.cornerCount != 0 && !mesh.materials.isEmpty

def materialTable (mesh : Mesh) : MaterialTable := .ofMaterials mesh.materials

/-- The triangles with a valid material, grouped by material. -/
def sortedTriangles (mesh : Mesh) : List Triangle :=
  Triangle.sort (Triangle.collect mesh.triangleMaterials mesh.materialTable.remap)

/-- The packed mesh and what was repaired (`pack_mesh_with_report`). Without corners or materials
both are empty. -/
def packWithReport (mesh : Mesh) : PackedMesh × PackReport :=
  if mesh.isPackable then
    let table := mesh.materialTable
    let triangles := mesh.sortedTriangles
    let welded := Welder.weld mesh triangles
    ({ vertices := welded.vertices
       indices := welded.indices
       materialIds := welded.materialIds
       materials := table.materials
       drawRanges := welded.drawRanges },
     { mergedMaterials := table.mergedCount
       droppedTriangles := mesh.triangleCount - triangles.length
       skippedCorners := welded.skippedCorners
       correctedAttributes := welded.correctedAttributes
       fallbackCorners := welded.fallbackCorners
       weldedCorners := welded.weldedCorners })
  else ({}, {})

/-- The packed mesh alone (`pack_mesh`). -/
def pack (mesh : Mesh) : PackedMesh := mesh.packWithReport.1

/-- What packing repaired or left out. -/
def report (mesh : Mesh) : PackReport := mesh.packWithReport.2

end RenderMesh.Mesh
