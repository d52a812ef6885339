import RenderMesh.Proofs.Packed.Json
import RenderMesh.Proofs.Report
import RenderMesh.Proofs.Upload

/-!
# Sizes of packed meshes

Triangles are kept as long as their corners can be addressed, so every count of a packed mesh is far
below what 64 bits hold. The counters of the report also count what was left out of the input.
-/

namespace RenderMesh

namespace MaterialTable

theorem mergedCount_le (materials : Array Material) :
    (ofMaterials materials).mergedCount ≤ materials.size := by
  obtain ⟨taken, hprefix, hr, _⟩ := ofMaterials_cases materials
  have hlength := hprefix.length_le
  rw [← hr.remap_size, Array.length_toList] at hlength
  exact Nat.le_trans (Nat.sub_le _ _) hlength

end MaterialTable

namespace Mesh

variable (mesh : Mesh)

theorem triangleCount_pack_le : mesh.pack.triangleCount ≤ 1431655766 := by
  by_cases h : mesh.isPackable = true
  · rw [triangleCount_pack h]
    exact mesh.length_sortedTriangles_le_reach
  · rw [pack_of_not_isPackable h]
    exact Nat.zero_le _

theorem vertexCount_pack_le : mesh.pack.vertexCount ≤ 3 * mesh.pack.triangleCount := by
  by_cases h : mesh.isPackable = true
  · rw [vertexCount_pack h, triangleCount_pack h]
    exact Nat.le_trans (FirstAppearance.length_eraseDups_le _) (mesh.length_pairs_le _)
  · rw [pack_of_not_isPackable h]
    exact Nat.zero_le _

theorem materials_pack_le : mesh.pack.materials.size ≤ MaterialTable.capacity := by
  by_cases h : mesh.isPackable = true
  · rw [pack_of_isPackable h]
    obtain ⟨_, _, hr, _⟩ := MaterialTable.ofMaterials_cases mesh.materials
    exact hr.room
  · rw [pack_of_not_isPackable h]
    exact Nat.zero_le _

theorem count_pack_le (which : Count) :
    (mesh.pack.count which : Int) ≤ Int64.maxValue.toInt := by
  have htriangles := mesh.triangleCount_pack_le
  have hvertices := mesh.vertexCount_pack_le
  have hindices := mesh.pack_uploadable.1.corners
  have hmaterials := mesh.materials_pack_le
  have hcapacity : MaterialTable.capacity = 4294967296 := rfl
  have hmax : Int64.maxValue.toInt = 9223372036854775807 := rfl
  simp only [PackedMesh.triangleCount] at htriangles hvertices
  cases which <;> simp only [PackedMesh.count, PackedMesh.triangleCount] <;> omega

theorem sized_pack : mesh.pack.Sized := by
  have hcount : ∀ which, mesh.pack.count which < UInt64.size :=
    fun which => Int.ofNat_lt.mp (Int.lt_of_le_of_lt (mesh.count_pack_le which) (by decide))
  refine ⟨hcount .vertices, hcount .indices, hcount .triangles, hcount .materials, ?_⟩
  intro range hr
  have hstop := mesh.pack_uploadable.1.rangeIndices range hr
  have hindices := hcount .indices
  simp only [DrawRange.stop, PackedMesh.count] at hstop hindices
  omega

theorem sized_report (materials : mesh.materials.size < UInt64.size)
    (triangles : mesh.triangleCount < UInt64.size) : mesh.report.Sized := by
  by_cases h : mesh.isPackable = true
  · have hmerged := MaterialTable.mergedCount_le mesh.materials
    have hseen := Welder.seen_weld mesh mesh.sortedTriangles
    have hplaces : (mesh.sortedTriangles.flatMap Triangle.places).length < UInt64.size := by
      have hreach := mesh.length_sortedTriangles_le_reach
      rw [Triangle.length_flatMap_places, UInt64.size]
      omega
    have hcounter : ∀ p : Nat → Bool,
        (mesh.sortedTriangles.flatMap Triangle.places).countP p < UInt64.size :=
      fun _ => Nat.lt_of_le_of_lt List.countP_le_length hplaces
    rw [report_of_isPackable h]
    constructor
    · exact Nat.lt_of_le_of_lt hmerged materials
    · exact Nat.lt_of_le_of_lt (Nat.sub_le _ _) triangles
    · exact hseen.skipped ▸ hcounter _
    · exact hseen.corrected ▸ hcounter _
    · exact hseen.fallback ▸ hcounter _
    · have hwelded := hseen.welded
      have hpairs : (mesh.pairsAt (mesh.sortedTriangles.flatMap Triangle.places)).length ≤
          (mesh.sortedTriangles.flatMap Triangle.places).length := List.length_filterMap_le _ _
      simp only
      omega
  · rw [report_of_not_isPackable h]
    constructor <;> decide

end Mesh

end RenderMesh
