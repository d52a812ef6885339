import RenderMesh.Proofs.DrawRange
import RenderMesh.Proofs.Pack
import RenderMesh.Proofs.Welder.Numbering

/-!
# Draw ranges of a welder

Draw ranges are the runs of the materials that the indices were emitted under, whatever the order
of the triangles and however few corners can be read. Triangles grouped by material have one range
for each material that emits anything, and it holds all readable corners of the material.
-/

namespace RenderMesh

namespace Mesh

/-- The material of every index that triangles emit. -/
def owners (mesh : Mesh) (triangles : List Triangle) : List UInt32 :=
  triangles.flatMap fun triangle => List.replicate (mesh.readable [triangle]) triangle.material

theorem owners_append (mesh : Mesh) (xs ys : List Triangle) :
    mesh.owners (xs ++ ys) = mesh.owners xs ++ mesh.owners ys :=
  List.flatMap_append

theorem countP_owners (mesh : Mesh) (p : UInt32 → Bool) (triangles : List Triangle) :
    (mesh.owners triangles).countP p =
      mesh.readable (triangles.filter fun triangle => p triangle.material) := by
  induction triangles with
  | nil => rfl
  | cons triangle rest ih =>
    have ho : mesh.owners (triangle :: rest) =
        List.replicate (mesh.readable [triangle]) triangle.material ++ mesh.owners rest := rfl
    rw [ho, List.countP_append, List.countP_replicate, ih, List.filter_cons]
    by_cases hp : p triangle.material = true
    · rw [if_pos hp, if_pos hp, ← readable_append]
      rfl
    · rw [if_neg hp, if_neg hp, Nat.zero_add]

theorem countP_owners_eq (mesh : Mesh) (material : UInt32) (triangles : List Triangle) :
    (mesh.owners triangles).countP (· = material) =
      mesh.readable (Triangle.ofMaterial material triangles) :=
  mesh.countP_owners (fun owner => owner = material) triangles

theorem length_owners (mesh : Mesh) (triangles : List Triangle) :
    (mesh.owners triangles).length = mesh.readable triangles := by
  have h := mesh.countP_owners (fun _ => true) triangles
  rw [List.countP_true, List.filter_true] at h
  exact h

theorem mem_owners_iff (mesh : Mesh) {triangles : List Triangle} {material : UInt32} :
    material ∈ mesh.owners triangles ↔
      ∃ triangle ∈ triangles, triangle.material = material ∧
        ∃ place ∈ triangle.places, place < mesh.cornerCount := by
  rw [owners, List.mem_flatMap]
  constructor
  · rintro ⟨triangle, ht, hm⟩
    obtain ⟨hn, he⟩ := List.mem_replicate.mp hm
    obtain ⟨place, hp, hlt⟩ := List.countP_pos_iff.mp (Nat.pos_of_ne_zero hn)
    rw [List.flatMap_singleton] at hp
    exact ⟨triangle, ht, he.symm, place, hp, of_decide_eq_true hlt⟩
  · rintro ⟨triangle, ht, rfl, place, hp, hlt⟩
    have hpos : 0 < mesh.readable [triangle] := by
      rw [readable, List.flatMap_singleton]
      exact List.countP_pos_iff.mpr ⟨place, hp, decide_eq_true hlt⟩
    exact ⟨triangle, ht, List.mem_replicate.mpr ⟨by omega, rfl⟩⟩

theorem pairwise_owners (mesh : Mesh) {triangles : List Triangle}
    (h : triangles.Pairwise fun a b => a.material ≤ b.material) :
    (mesh.owners triangles).Pairwise (· ≤ ·) := by
  rw [owners, List.pairwise_flatMap]
  refine ⟨?_, ?_⟩
  · intro triangle _
    exact List.pairwise_replicate.mpr (Or.inr (UInt32.le_refl _))
  · refine h.imp ?_
    intro a b hab x hx y hy
    rw [List.eq_of_mem_replicate hx, List.eq_of_mem_replicate hy]
    exact hab

theorem exists_triangle_of_owner (mesh : Mesh) {triangles : List Triangle} {place : Nat}
    {material : UInt32} (h : (mesh.owners triangles)[place]? = some material) :
    ∃ number triangle, triangles[number]? = some triangle ∧ triangle.material = material ∧
      mesh.readable (triangles.take number) ≤ place ∧
      place < mesh.readable (triangles.take (number + 1)) := by
  induction triangles generalizing place with
  | nil => cases h
  | cons triangle rest ih =>
    have ho : mesh.owners (triangle :: rest) = mesh.owners [triangle] ++ mesh.owners rest :=
      mesh.owners_append [triangle] rest
    have hreadable : ∀ number, mesh.readable ((triangle :: rest).take (number + 1)) =
        mesh.readable [triangle] + mesh.readable (rest.take number) := fun number =>
      mesh.readable_append [triangle] (rest.take number)
    have hlength := mesh.length_owners [triangle]
    rw [ho] at h
    by_cases hplace : place < (mesh.owners [triangle]).length
    · rw [List.getElem?_append_left hplace] at h
      obtain ⟨other, hmem, hmaterial, _⟩ := mesh.mem_owners_iff.mp (List.mem_of_getElem? h)
      rw [List.mem_singleton.mp hmem] at hmaterial
      exact ⟨0, triangle, rfl, hmaterial, Nat.zero_le _,
        Nat.lt_of_lt_of_le hplace (Nat.le_of_eq hlength)⟩
    · rw [List.getElem?_append_right (Nat.le_of_not_lt hplace)] at h
      obtain ⟨number, other, ht, hmaterial, hle, hlt⟩ := ih h
      refine ⟨number + 1, other, ht, hmaterial, ?_, ?_⟩
      · rw [hreadable]
        omega
      · rw [hreadable]
        omega

end Mesh

namespace Welder

theorem weld_drawRanges (mesh : Mesh) (triangles : List Triangle) :
    (weld mesh triangles).drawRanges = DrawRange.ofOwners (mesh.owners triangles) := by
  induction triangles using List.reverseRecOn with
  | nil => rfl
  | append_singleton triangles triangle ih =>
    have hsize := weld_indices_size mesh (triangles ++ [triangle])
    rw [weld_concat, weldTriangle_eq, mesh.readable_append] at hsize
    have ho : mesh.owners [triangle] =
        List.replicate (mesh.readable [triangle]) triangle.material := List.flatMap_singleton ..
    rw [weld_concat, weldTriangle_eq, mesh.owners_append, ho,
      DrawRange.ofOwners_append_replicate, mesh.length_owners, ← ih]
    simp only at hsize ⊢
    rw [(foldl_weldCorner_frame _ _).2, hsize, weld_indices_size]

theorem runs_weld (mesh : Mesh) (triangles : List Triangle) :
    DrawRange.Runs (mesh.owners triangles) (weld mesh triangles).drawRanges.toList := by
  rw [weld_drawRanges]
  exact DrawRange.runs_ofOwners _

/-- The triangle of a number emits the index at a place: welding it takes the indices past the
place, and none of the triangles after it changes the index. -/
structure EmittedBy (mesh : Mesh) (triangles : List Triangle) (number place : Nat) : Prop where
  before : (weld mesh (triangles.take number)).indices.size ≤ place
  after : place < (weld mesh (triangles.take (number + 1))).indices.size
  kept : (weld mesh triangles).indices[place]? =
    (weld mesh (triangles.take (number + 1))).indices[place]?

/-- Ranges in order of material, one for every material that has a readable corner. Each has all
readable corners of its material. -/
structure OneRangeEach (mesh : Mesh) (triangles : List Triangle) (ranges : List DrawRange) :
    Prop where
  increasing : ranges.Pairwise fun a b => a.material < b.material
  unique : ∀ material, 0 < mesh.readable (Triangle.ofMaterial material triangles) ↔
    ∃! range, range ∈ ranges ∧ range.material = material
  complete : ∀ range ∈ ranges,
    range.indexCount = mesh.readable (Triangle.ofMaterial range.material triangles)

theorem partition_weld (mesh : Mesh) (triangles : List Triangle) :
    DrawRange.Partition (weld mesh triangles).drawRanges.toList
      (weld mesh triangles).indices.size := by
  have h := (runs_weld mesh triangles).toPartition
  rw [mesh.length_owners, ← weld_indices_size] at h
  exact h

theorem emittedBy_weld (mesh : Mesh) (triangles : List Triangle) {range : DrawRange}
    (hr : range ∈ (weld mesh triangles).drawRanges) {place : Nat}
    (hfirst : range.firstIndex ≤ place) (hstop : place < range.stop) :
    ∃ number triangle, triangles[number]? = some triangle ∧
      triangle.material = range.material ∧ EmittedBy mesh triangles number place := by
  have ho := (runs_weld mesh triangles).owner_at (Array.mem_toList_iff.mpr hr) hfirst hstop
  obtain ⟨number, triangle, ht, hmaterial, hle, hlt⟩ := mesh.exists_triangle_of_owner ho
  rw [← weld_indices_size] at hle hlt
  refine ⟨number, triangle, ht, hmaterial, hle, hlt, ?_⟩
  have hkept := weld_append_index mesh _ (triangles.drop (number + 1)) hlt
  rw [List.take_append_drop] at hkept
  exact hkept

theorem oneRangeEach_weld (mesh : Mesh) {triangles : List Triangle}
    (grouped : triangles.Pairwise fun a b => a.material ≤ b.material) :
    OneRangeEach mesh triangles (weld mesh triangles).drawRanges.toList := by
  have h := runs_weld mesh triangles
  have hs := mesh.pairwise_owners grouped
  have hlt := h.pairwise_lt hs
  refine ⟨hlt, ?_, ?_⟩
  · intro material
    rw [← mesh.countP_owners_eq, List.countP_pos_iff]
    simp only [decide_eq_true_eq, exists_eq_right]
    rw [h.mem_owners_iff]
    constructor
    · rintro ⟨range, hr, hm⟩
      refine ⟨range, ⟨hr, hm⟩, ?_⟩
      rintro other ⟨ho, hmo⟩
      exact DrawRange.eq_of_material_eq hlt ho hr (hmo.trans hm.symm)
    · rintro ⟨range, hr, _⟩
      exact ⟨range, hr⟩
  · intro range hr
    rw [(h.counts hs hr).2, mesh.countP_owners_eq]

/-- Draw ranges cut the indices into runs, and every index inside a range was emitted by a triangle
of its material. Triangles in order of material have one range each for the materials they show. -/
theorem drawRanges_partition_indices (mesh : Mesh) (triangles : List Triangle) :
    DrawRange.Partition (weld mesh triangles).drawRanges.toList
      (weld mesh triangles).indices.size ∧
    (∀ range ∈ (weld mesh triangles).drawRanges, ∀ place, range.firstIndex ≤ place →
      place < range.stop → ∃ number triangle, triangles[number]? = some triangle ∧
        triangle.material = range.material ∧ EmittedBy mesh triangles number place) ∧
    ((triangles.Pairwise fun a b => a.material ≤ b.material) →
      OneRangeEach mesh triangles (weld mesh triangles).drawRanges.toList) := by
  refine ⟨partition_weld mesh triangles, ?_, ?_⟩
  · intro range hr place hfirst hstop
    exact emittedBy_weld mesh triangles hr hfirst hstop
  · intro grouped
    exact oneRangeEach_weld mesh grouped

/-- A packed mesh has one range for every material it shows. -/
theorem drawRanges_pack {mesh : Mesh} (h : mesh.isPackable = true) :
    DrawRange.Partition mesh.pack.drawRanges.toList mesh.pack.indices.size ∧
    OneRangeEach mesh mesh.sortedTriangles mesh.pack.drawRanges.toList := by
  rw [Mesh.pack_of_isPackable h]
  exact ⟨partition_weld mesh mesh.sortedTriangles,
    oneRangeEach_weld mesh mesh.groupedOrder_sortedTriangles.grouped⟩

end Welder

end RenderMesh
