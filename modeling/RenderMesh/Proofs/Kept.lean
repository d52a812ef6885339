import Mathlib.Data.List.Perm.Subperm
import RenderMesh.Proofs.Material.Table
import RenderMesh.Proofs.Pack
import RenderMesh.Proofs.Welder.History

/-!
# Kept triangles

Collecting keeps the triangles whose material is in the table and whose corners can be addressed,
in the order given: giving up at the first one out of reach loses nothing, since all later ones are
out of reach as well. Sorting leaves the triangles of a material in that order.
-/

namespace RenderMesh

namespace Triangle

/-- The places of the corners of triangle `t`. -/
def placesOf (t : Nat) : List Nat := [0, 1, 2].map fun c => 3 * t + c

/-- What collecting makes of triangle `t`, given its material index. -/
def kept? (remap : Array UInt32) (t : Nat) (index : UInt32) : Option Triangle :=
  if 3 * t < UInt32.size then remap[index.toNat]?.map fun material => ⟨(3 * t).toUInt32, material⟩
  else none

theorem kept?_of_not_lt {t : Nat} (h : ¬3 * t < UInt32.size) (remap : Array UInt32)
    (index : UInt32) : kept? remap t index = none := if_neg h

theorem collectFrom_eq_filterMap (remap : Array UInt32) (t : Nat) (indices : List UInt32) :
    collectFrom remap t indices = (List.range' t indices.length).filterMap fun s =>
      indices[s - t]?.bind (kept? remap s) := by
  induction indices generalizing t with
  | nil => rfl
  | cons index rest ih =>
    have hrest : ((List.range' (t + 1) rest.length).filterMap fun s =>
        (index :: rest)[s - t]?.bind (kept? remap s)) =
          (List.range' (t + 1) rest.length).filterMap fun s =>
            rest[s - (t + 1)]?.bind (kept? remap s) := by
      apply List.filterMap_congr
      intro s hs
      obtain ⟨k, hk, rfl⟩ := List.mem_range'.mp hs
      have hnext : t + 1 + 1 * k - t = t + 1 + 1 * k - (t + 1) + 1 := by omega
      rw [hnext, List.getElem?_cons_succ]
    rw [List.length_cons, List.range'_succ, List.filterMap_cons, hrest, Nat.sub_self,
      List.getElem?_cons_zero, Option.bind_some, collectFrom]
    cases hm : remap[index.toNat]? with
    | none => simp [kept?, hm, ih]
    | some material =>
      by_cases ht : 3 * t < UInt32.size
      · simp [kept?, reach, hm, ht, ih]
      · -- No triangle after `t` can be addressed either.
        have hlater : ((List.range' (t + 1) rest.length).filterMap fun s =>
            rest[s - (t + 1)]?.bind (kept? remap s)) = [] := by
          rw [List.filterMap_eq_nil_iff]
          intro s hs
          obtain ⟨k, _, rfl⟩ := List.mem_range'.mp hs
          cases rest[t + 1 + 1 * k - (t + 1)]? with
          | none => rfl
          | some other => exact kept?_of_not_lt (by omega) remap other
        rw [hlater, kept?_of_not_lt ht]
        exact if_neg ht

theorem collect_eq_filterMap (indices remap : Array UInt32) :
    collect indices remap =
      (List.range indices.size).filterMap fun t => indices[t]?.bind (kept? remap t) := by
  rw [collect, collectFrom_eq_filterMap, ← List.range_eq_range', Array.length_toList]
  simp only [Nat.sub_zero, Array.getElem?_toList]

theorem places_of_lt {t : Nat} (h : 3 * t < UInt32.size) (material : UInt32) :
    places ⟨(3 * t).toUInt32, material⟩ = placesOf t := by
  have hbase : (3 * t).toUInt32.toNat = 3 * t := Nat.mod_eq_of_lt h
  simp only [places, placesOf, hbase]

theorem ofMaterial_sort (material : UInt32) (triangles : List Triangle) :
    ofMaterial material (sort triangles) = ofMaterial material triangles :=
  ByKey.filter_mergeSort Triangle.material triangles material

end Triangle

namespace Mesh

/-- The place in the material table of the material of triangle `t`. -/
def materialAt? (mesh : Mesh) (t : Nat) : Option UInt32 :=
  mesh.triangleMaterials[t]?.bind mesh.materialTable.get?

/-- The kept triangles of a material, by number in the order given. -/
def trianglesOf (mesh : Mesh) (material : UInt32) : List Nat :=
  (List.range mesh.triangleCount).filter fun t =>
    3 * t < UInt32.size ∧ mesh.materialAt? t = some material

theorem collectedTriangles_eq (mesh : Mesh) :
    mesh.collectedTriangles = (List.range mesh.triangleCount).filterMap fun t =>
      if 3 * t < UInt32.size then
        (mesh.materialAt? t).map fun material => ⟨(3 * t).toUInt32, material⟩
      else none := by
  rw [collectedTriangles, Triangle.collect_eq_filterMap]
  apply List.filterMap_congr
  intro t _
  rw [materialAt?]
  cases mesh.triangleMaterials[t]? with
  | none => simp
  | some index => rfl

theorem length_sortedTriangles_le_reach (mesh : Mesh) :
    mesh.sortedTriangles.length ≤ 1431655766 := by
  have hsub : ((List.range mesh.triangleCount).filter fun t => 3 * t < UInt32.size) ⊆
      List.range 1431655766 := by
    intro t ht
    have hlt := of_decide_eq_true (List.mem_filter.mp ht).2
    simp only [UInt32.size] at hlt
    exact List.mem_range.mpr (by omega)
  have hdistinct : ((List.range mesh.triangleCount).filter fun t => 3 * t < UInt32.size).Nodup :=
    List.Pairwise.filter _ List.nodup_range
  have hcount := (List.Nodup.subperm hdistinct hsub).length_le
  rw [List.length_range, ← List.countP_eq_length_filter] at hcount
  rw [mesh.groupedOrder_sortedTriangles.perm.length_eq, collectedTriangles_eq,
    List.length_filterMap_eq_countP]
  refine Nat.le_trans (List.countP_mono_left ?_) hcount
  intro t _ hkept
  by_contra hfar
  rw [if_neg (of_decide_eq_false (by simpa using hfar))] at hkept
  exact absurd hkept Bool.false_ne_true

theorem ofMaterial_sortedTriangles (mesh : Mesh) (material : UInt32) :
    Triangle.ofMaterial material mesh.sortedTriangles =
      (mesh.trianglesOf material).map fun t => ⟨(3 * t).toUInt32, material⟩ := by
  have hsorted : mesh.sortedTriangles = Triangle.sort mesh.collectedTriangles := rfl
  rw [hsorted, Triangle.ofMaterial_sort, collectedTriangles_eq, Triangle.ofMaterial,
    List.filter_filterMap, trianglesOf, ← List.filterMap_eq_map, List.filterMap_filter]
  apply List.filterMap_congr
  intro t _
  by_cases ht : 3 * t < UInt32.size
  · cases hm : mesh.materialAt? t with
    | none => simp [ht]
    | some other =>
      by_cases ho : other = material
      · simp [ht, ho]
      · simp [ht, ho]
  · simp [ht]

theorem materialAt?_lt (mesh : Mesh) {t : Nat} {material : UInt32}
    (h : mesh.materialAt? t = some material) :
    material.toNat < mesh.materialTable.materials.size := by
  obtain ⟨index, _, hm⟩ := Option.bind_eq_some_iff.mp h
  exact MaterialTable.ofMaterials_places mesh.materials material (Array.mem_of_getElem? hm)

theorem material_lt_of_mem (mesh : Mesh) {triangle : Triangle}
    (h : triangle ∈ mesh.sortedTriangles) :
    triangle.material.toNat < mesh.materialTable.materials.size := by
  have hm : triangle ∈ Triangle.ofMaterial triangle.material mesh.sortedTriangles :=
    List.mem_filter.mpr ⟨h, decide_eq_true rfl⟩
  rw [ofMaterial_sortedTriangles] at hm
  obtain ⟨t, ht, _⟩ := List.mem_map.mp hm
  have hkept := of_decide_eq_true (List.mem_filter.mp ht).2
  exact mesh.materialAt?_lt hkept.2

end Mesh

end RenderMesh
