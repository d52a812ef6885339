import RenderMesh.Proofs.Kept
import RenderMesh.Proofs.Unwelded
import RenderMesh.Proofs.Welder.Counts
import RenderMesh.Proofs.Welder.DrawRanges

/-!
# Uploading packed meshes

Whatever the input, a packed mesh can be drawn without a check: no index leaves the vertices, no
material leaves the table and no range leaves the indices. An offset that wrapped around is smaller
than the one it stands for, so it stays inside the vertices and at the start of one.
-/

namespace RenderMesh

theorem PackedMesh.isSome_vertex?_of_index {packed : PackedMesh} {index : UInt32}
    (hd : Vertex.stride ∣ index.toNat)
    (hb : index.toNat + Vertex.stride ≤ packed.vertices.size) :
    (packed.vertex? (index / Vertex.stride.toUInt32).toUInt64).isSome = true := by
  have hstart : (index / Vertex.stride.toUInt32).toUInt64.toNat * Vertex.stride =
      index.toNat := by
    rw [UInt32.toNat_toUInt64, UInt32.toNat_div]
    exact Nat.div_mul_cancel hd
  have hword := index.toNat_lt
  rw [PackedMesh.isSome_vertex?_iff, hstart, UInt64.size]
  exact ⟨by omega, hb⟩

/-- A packed mesh whose buffers refer to each other within bounds. -/
structure PackedMesh.Uploadable (packed : PackedMesh) : Prop where
  vertices : Vertex.stride ∣ packed.vertices.size
  indices : ∀ index ∈ packed.indices,
    Vertex.stride ∣ index.toNat ∧ index.toNat < packed.vertices.size
  numbers : ∀ number ∈ packed.vertexIndices, (packed.vertex? number.toUInt64).isSome = true
  materialIds : ∀ material ∈ packed.materialIds, material.toNat < packed.materials.size
  grouped : packed.materialIds.toList.Pairwise (· ≤ ·)
  rangeMaterials : ∀ range ∈ packed.drawRanges, range.material.toNat < packed.materials.size
  rangeIndices : ∀ range ∈ packed.drawRanges, range.stop ≤ packed.indices.size
  corners : packed.indices.size ≤ 3 * packed.materialIds.size

theorem PackedMesh.uploadable_empty : Uploadable {} := by
  constructor <;> simp [vertexIndices]

namespace Welder

variable {mesh : Mesh} {w : Welder} {pairs : List Corner}

theorem Numbered.index_bounds (h : Numbered mesh pairs w) {index : UInt32}
    (hi : index ∈ w.indices) :
    Vertex.stride ∣ index.toNat ∧ index.toNat + Vertex.stride ≤ w.vertices.size := by
  rw [← Array.mem_toList_iff, h.indices] at hi
  obtain ⟨pair, hm, rfl⟩ := List.mem_map.mp hi
  have hlt := List.idxOf_lt_length_of_mem (List.mem_eraseDups.mpr hm)
  rw [Vertex.toNat_offset, h.vertices_size]
  simp only [Vertex.stride, UInt32.size]
  constructor <;> omega

end Welder

namespace Mesh

theorem uploadable_of_isPackable {mesh : Mesh} (h : mesh.isPackable = true) :
    mesh.pack.Uploadable := by
  have hnumbered := Welder.numbered_weld mesh mesh.sortedTriangles
  have hruns := Welder.runs_weld mesh mesh.sortedTriangles
  have hids := Welder.weld_materialIds mesh mesh.sortedTriangles
  have hcorners := Welder.weld_indices_add_skipped mesh mesh.sortedTriangles
  rw [pack_of_isPackable h]
  constructor
  · exact ⟨_, hnumbered.vertices_size⟩
  · intro index hi
    obtain ⟨hd, hb⟩ := hnumbered.index_bounds hi
    exact ⟨hd, Nat.lt_of_lt_of_le (Nat.lt_add_of_pos_right (by decide)) hb⟩
  · intro number hn
    obtain ⟨index, hi, rfl⟩ := Array.mem_map.mp hn
    obtain ⟨hd, hb⟩ := hnumbered.index_bounds hi
    exact PackedMesh.isSome_vertex?_of_index hd hb
  · intro material hm
    rw [← Array.mem_toList_iff, hids] at hm
    obtain ⟨triangle, ht, rfl⟩ := List.mem_map.mp hm
    exact mesh.material_lt_of_mem ht
  · rw [hids, List.pairwise_map]
    exact Triangle.pairwise_sort _
  · intro range hr
    obtain ⟨triangle, ht, hm, _⟩ := mesh.mem_owners_iff.mp
      (hruns.mem_owners_iff.mpr ⟨range, Array.mem_toList_iff.mpr hr, rfl⟩)
    rw [← hm]
    exact mesh.material_lt_of_mem ht
  · intro range hr
    have hstop := hruns.stop_le (Array.mem_toList_iff.mpr hr)
    rw [mesh.length_owners, ← Welder.weld_indices_size] at hstop
    exact hstop
  · simp only [Welder.weld_materialIds_size]
    omega

theorem size_indices_eq_iff (mesh : Mesh) :
    mesh.pack.indices.size = 3 * mesh.pack.materialIds.size ↔
      mesh.report.skippedCorners = 0 := by
  by_cases h : mesh.isPackable = true
  · have hcorners := Welder.weld_indices_add_skipped mesh mesh.sortedTriangles
    rw [pack_of_isPackable h, report_of_isPackable h]
    simp only [Welder.weld_materialIds_size]
    omega
  · simp [pack_of_not_isPackable h, report_of_not_isPackable h]

theorem isEmpty_pack_iff (mesh : Mesh) :
    mesh.pack.isEmpty = true ↔ mesh.cornerCount = 0 ∨ mesh.materials.size = 0 := by
  by_cases h : mesh.isPackable = true
  · -- The table of some materials keeps at least one of them.
    obtain ⟨hc, hm⟩ := mesh.isPackable_iff.mp h
    have hkept := MaterialTable.ofMaterials_materials_pos (Nat.pos_of_ne_zero hm)
    have htable : mesh.materialTable.materials.isEmpty = false := by
      rw [Array.isEmpty_eq_false_iff]
      exact Array.size_pos_iff.mp hkept
    simp [pack_of_isPackable h, PackedMesh.isEmpty, htable, hc, hm]
  · have hnothing : mesh.cornerCount = 0 ∨ mesh.materials.size = 0 := by
      rw [isPackable_iff] at h
      omega
    rw [pack_of_not_isPackable h]
    exact iff_of_true rfl hnothing

/-- Every packed mesh is safe to upload. It has three indices for each triangle exactly when no
corner was skipped, and it is empty exactly when there was nothing to pack. -/
theorem pack_uploadable (mesh : Mesh) :
    mesh.pack.Uploadable ∧
    (mesh.pack.indices.size = 3 * mesh.pack.materialIds.size ↔ mesh.report.skippedCorners = 0) ∧
    (mesh.pack.isEmpty = true ↔ mesh.cornerCount = 0 ∨ mesh.materials.size = 0) := by
  refine ⟨?_, mesh.size_indices_eq_iff, mesh.isEmpty_pack_iff⟩
  by_cases h : mesh.isPackable = true
  · exact uploadable_of_isPackable h
  · rw [pack_of_not_isPackable h]
    exact PackedMesh.uploadable_empty

end Mesh

end RenderMesh
