import RenderMesh.Pack
import RenderMesh.Proofs.ByKey

/-!
# Steps of packing

What the steps before welding hand on: the triangles of a valid material, each once, grouped by
material. Grouping says nothing of the order inside a group.
-/

namespace RenderMesh

namespace Triangle

theorem length_collectFrom_le (remap : Array UInt32) (t : Nat) (indices : List UInt32) :
    (collectFrom remap t indices).length ≤ indices.length := by
  induction indices generalizing t with
  | nil => exact Nat.le_refl _
  | cons index rest ih =>
    have hr := ih (t + 1)
    unfold collectFrom
    split
    · exact Nat.le_succ_of_le hr
    · split
      · exact Nat.succ_le_succ hr
      · exact Nat.zero_le _

theorem sort_perm (triangles : List Triangle) : (sort triangles).Perm triangles :=
  List.mergeSort_perm _ _

theorem pairwise_sort (triangles : List Triangle) :
    (sort triangles).Pairwise fun a b => a.material ≤ b.material :=
  ByKey.pairwise_mergeSort material triangles

/-- The triangles of a material. -/
def ofMaterial (material : UInt32) (triangles : List Triangle) : List Triangle :=
  triangles.filter fun triangle => triangle.material = material

end Triangle

namespace Mesh

/-- The triangles of a valid material in the order given. -/
def collectedTriangles (mesh : Mesh) : List Triangle :=
  Triangle.collect mesh.triangleMaterials mesh.materialTable.remap

/-- An order of the collected triangles by material, with ties in any order. -/
structure GroupedOrder (mesh : Mesh) (triangles : List Triangle) : Prop where
  perm : triangles.Perm mesh.collectedTriangles
  grouped : triangles.Pairwise fun a b => a.material ≤ b.material

theorem groupedOrder_sortedTriangles (mesh : Mesh) : mesh.GroupedOrder mesh.sortedTriangles :=
  ⟨Triangle.sort_perm _, Triangle.pairwise_sort _⟩

theorem length_sortedTriangles_le (mesh : Mesh) :
    mesh.sortedTriangles.length ≤ mesh.triangleCount := by
  rw [mesh.groupedOrder_sortedTriangles.perm.length_eq]
  exact Triangle.length_collectFrom_le _ _ _

theorem pack_of_isPackable {mesh : Mesh} (h : mesh.isPackable = true) :
    mesh.pack =
      { vertices := (Welder.weld mesh mesh.sortedTriangles).vertices
        indices := (Welder.weld mesh mesh.sortedTriangles).indices
        materialIds := (Welder.weld mesh mesh.sortedTriangles).materialIds
        materials := mesh.materialTable.materials
        drawRanges := (Welder.weld mesh mesh.sortedTriangles).drawRanges } := by
  rw [pack, packWithReport, if_pos h]

theorem report_of_isPackable {mesh : Mesh} (h : mesh.isPackable = true) :
    mesh.report =
      { mergedMaterials := mesh.materialTable.mergedCount
        droppedTriangles := mesh.triangleCount - mesh.sortedTriangles.length
        skippedCorners := (Welder.weld mesh mesh.sortedTriangles).skippedCorners
        correctedAttributes := (Welder.weld mesh mesh.sortedTriangles).correctedAttributes
        fallbackCorners := (Welder.weld mesh mesh.sortedTriangles).fallbackCorners
        weldedCorners := (Welder.weld mesh mesh.sortedTriangles).weldedCorners } := by
  rw [report, packWithReport, if_pos h]

theorem pack_of_not_isPackable {mesh : Mesh} (h : ¬mesh.isPackable = true) : mesh.pack = {} := by
  rw [pack, packWithReport, if_neg h]

theorem report_of_not_isPackable {mesh : Mesh} (h : ¬mesh.isPackable = true) :
    mesh.report = {} := by
  rw [report, packWithReport, if_neg h]

theorem isPackable_iff (mesh : Mesh) :
    mesh.isPackable = true ↔ mesh.cornerCount ≠ 0 ∧ mesh.materials.size ≠ 0 := by
  simp [isPackable]

theorem isPackable_of_pos {mesh : Mesh} (corners : 0 < mesh.cornerCount)
    (materials : 0 < mesh.materials.size) : mesh.isPackable = true :=
  mesh.isPackable_iff.mpr ⟨Nat.ne_zero_of_lt corners, Nat.ne_zero_of_lt materials⟩

end Mesh

end RenderMesh
