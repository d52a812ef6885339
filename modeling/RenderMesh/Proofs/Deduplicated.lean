import RenderMesh.Proofs.Material.Deduplication
import RenderMesh.Proofs.Report

/-!
# Deduplicating before packing

A deduplicated mesh has the materials of its table, and its triangles refer to these. The table of
a table is the same again, and an index that was out of range still is, since a table is never
longer than what it was made of. So packing collects the same triangles and welds the same corners;
only there is nothing left to merge.
-/

namespace RenderMesh

namespace Mesh

/-- The mesh with the materials of its table. Material indices out of range stay as they are. -/
def deduplicated (mesh : Mesh) : Mesh :=
  { mesh with
    materials := mesh.materialTable.materials
    triangleMaterials := mesh.triangleMaterials.map fun index =>
      (mesh.materialTable.get? index).getD index }

variable {mesh : Mesh}

theorem get?_deduplicated (mesh : Mesh) (index : UInt32) :
    mesh.deduplicated.materialTable.get? index =
      if index.toNat < mesh.materialTable.materials.size then some index else none :=
  MaterialTable.get?_ofMaterials_again mesh.materials index

theorem materials_deduplicated (mesh : Mesh) :
    mesh.deduplicated.materialTable.materials = mesh.materialTable.materials :=
  MaterialTable.materials_ofMaterials_again mesh.materials

theorem triangleCount_deduplicated (mesh : Mesh) :
    mesh.deduplicated.triangleCount = mesh.triangleCount :=
  Array.size_map

/-- An index finds in the table of the table what it found in the table. -/
theorem get?_get?_getD (few : mesh.materials.size < 2 ^ 32) (index : UInt32) :
    mesh.deduplicated.materialTable.get? ((mesh.materialTable.get? index).getD index) =
      mesh.materialTable.get? index := by
  have hr : MaterialTable.Represents mesh.materials.toList mesh.materialTable :=
    MaterialTable.represents_of_lt few
  cases hplace : mesh.materialTable.get? index with
  | some place =>
    have hlt := hr.places place (Array.mem_of_getElem? hplace)
    rw [Option.getD_some, get?_deduplicated, if_pos hlt]
  | none =>
    have hout : mesh.materialTable.remap.size ≤ index.toNat :=
      Array.getElem?_eq_none_iff.mp hplace
    have hkept := Material.length_firsts mesh.materials.toList
    have hentries := hr.remap_size
    have hsize := hr.materials_size
    rw [Option.getD_none, get?_deduplicated, if_neg (by omega)]

theorem materialAt?_deduplicated (few : mesh.materials.size < 2 ^ 32) (t : Nat) :
    mesh.deduplicated.materialAt? t = mesh.materialAt? t := by
  have hindex : mesh.deduplicated.triangleMaterials[t]? =
      mesh.triangleMaterials[t]?.map fun index => (mesh.materialTable.get? index).getD index :=
    Array.getElem?_map
  rw [materialAt?, materialAt?, hindex]
  cases mesh.triangleMaterials[t]? with
  | none => rfl
  | some index => exact get?_get?_getD few index

theorem sortedTriangles_deduplicated (few : mesh.materials.size < 2 ^ 32) :
    mesh.deduplicated.sortedTriangles = mesh.sortedTriangles := by
  have hcollected : mesh.deduplicated.collectedTriangles = mesh.collectedTriangles := by
    simp only [collectedTriangles_eq, triangleCount_deduplicated, materialAt?_deduplicated few]
  exact congrArg Triangle.sort hcollected

/-- A welder does not look at materials. -/
theorem weld_deduplicated (mesh : Mesh) (triangles : List Triangle) :
    Welder.weld mesh.deduplicated triangles = Welder.weld mesh triangles := rfl

theorem isPackable_deduplicated (mesh : Mesh) :
    mesh.deduplicated.isPackable = mesh.isPackable := by
  have hcount : mesh.deduplicated.cornerCount = mesh.cornerCount := rfl
  have hempty : mesh.deduplicated.materials.size ≠ 0 ↔ mesh.materials.size ≠ 0 := by
    constructor
    · intro hd hm
      have hnone : mesh.materials = #[] := Array.eq_empty_of_size_eq_zero hm
      have htable : mesh.deduplicated.materials = (MaterialTable.ofMaterials #[]).materials :=
        congrArg (fun materials => (MaterialTable.ofMaterials materials).materials) hnone
      rw [htable] at hd
      exact hd rfl
    · intro hm
      exact Nat.ne_zero_of_lt (MaterialTable.ofMaterials_materials_pos (Nat.pos_of_ne_zero hm))
  rw [Bool.eq_iff_iff, isPackable_iff, isPackable_iff, hcount, hempty]

/-- Deduplicating the materials first changes nothing of what is packed, and of the report only that
no material is left to merge. -/
theorem pack_deduplicated (mesh : Mesh) (few : mesh.materials.size < 2 ^ 32) :
    mesh.deduplicated.pack = mesh.pack ∧
    mesh.deduplicated.report = { mesh.report with mergedMaterials := 0 } := by
  have hpackable := mesh.isPackable_deduplicated
  by_cases h : mesh.isPackable = true
  · have hagain : mesh.deduplicated.isPackable = true := hpackable.trans h
    have hsorted := sortedTriangles_deduplicated few
    have hmerged : mesh.deduplicated.materialTable.mergedCount = 0 :=
      MaterialTable.mergedCount_ofMaterials_again mesh.materials
    constructor
    · rw [pack_of_isPackable h, pack_of_isPackable hagain, hsorted, weld_deduplicated,
        materials_deduplicated]
    · rw [report_of_isPackable h, report_of_isPackable hagain, hsorted, weld_deduplicated,
        triangleCount_deduplicated, hmerged]
  · have hagain : ¬mesh.deduplicated.isPackable = true := by
      rw [hpackable]
      exact h
    constructor
    · rw [pack_of_not_isPackable h, pack_of_not_isPackable hagain]
    · rw [report_of_not_isPackable h, report_of_not_isPackable hagain]

theorem pack_deduplicated_worn :
    worn.materials.size < 2 ^ 32 ∧
    worn.deduplicated.pack = worn.pack ∧
    worn.deduplicated.report = { worn.report with mergedMaterials := 0 } ∧
    worn.deduplicated.materials = #[{}] ∧ worn.deduplicated.triangleMaterials = #[0, 0, 5] ∧
    worn.report = wornReport := by
  have few : worn.materials.size < 2 ^ 32 := by decide
  obtain ⟨packed, report⟩ := pack_deduplicated worn few
  have materials : worn.deduplicated.materials = #[{}] := by decide +kernel
  have indices : worn.deduplicated.triangleMaterials = #[0, 0, 5] := by decide +kernel
  exact ⟨few, packed, report, materials, indices, report_worn⟩

end Mesh

end RenderMesh
