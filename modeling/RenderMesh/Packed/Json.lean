import RenderMesh.Mesh.Json
import RenderMesh.Packed

/-!
# Packed meshes in JSON

Buffers that are left out of a packed mesh are empty; a draw range and a report need all of their
fields. A summary is a packed mesh beside its counts.
-/

namespace RenderMesh

open Json (Codec Document Record Value)

namespace DrawRange

def record : Record DrawRange where
  name := "DrawRange"
  fields :=
    [.of "material" .word material fun r a => { r with material := a },
     .of "first_index" .count firstIndex fun r a => { r with firstIndex := a },
     .of "index_count" .count indexCount fun r a => { r with indexCount := a }]
  initial := default
  complete := true

def codec : Codec DrawRange := record.codec

end DrawRange

namespace PackReport

def record : Record PackReport where
  name := "PackReport"
  fields :=
    [.of "merged_materials" .count mergedMaterials fun r a => { r with mergedMaterials := a },
     .of "dropped_triangles" .count droppedTriangles fun r a => { r with droppedTriangles := a },
     .of "skipped_corners" .count skippedCorners fun r a => { r with skippedCorners := a },
     .of "corrected_attributes" .count correctedAttributes fun r a =>
       { r with correctedAttributes := a },
     .of "fallback_corners" .count fallbackCorners fun r a => { r with fallbackCorners := a },
     .of "welded_corners" .count weldedCorners fun r a => { r with weldedCorners := a }]
  initial := {}
  complete := true

def codec : Codec PackReport := record.codec

end PackReport

namespace PackedMesh

def record : Record PackedMesh where
  name := "PackedMesh"
  fields :=
    [.of "vertices" (.array .single) vertices fun p a => { p with vertices := a },
     .of "indices" (.array .word) indices fun p a => { p with indices := a },
     .of "material_ids" (.array .word) materialIds fun p a => { p with materialIds := a },
     .of "materials" (.array Material.codec) materials fun p a => { p with materials := a },
     .of "draw_ranges" (.array DrawRange.codec) drawRanges fun p a => { p with drawRanges := a }]
  initial := {}

def codec : Codec PackedMesh := record.codec

/-- The counts of a packed mesh, the mesh, and the report if there is one (`packed_to_json`). -/
def summaryDocument (packed : PackedMesh) (report : Option PackReport) : Document :=
  .object
    ([("vertex_count", Document.ofNat packed.vertexCount),
      ("index_count", Document.ofNat packed.indices.size),
      ("triangle_count", Document.ofNat packed.triangleCount),
      ("material_count", Document.ofNat packed.materials.size),
      ("mesh", codec.document packed)]
      ++ report.toList.map fun report => ("report", PackReport.codec.document report))

def summary (packed : PackedMesh) (report : Option PackReport) : Value :=
  (packed.summaryDocument report).toValue

end PackedMesh

end RenderMesh
