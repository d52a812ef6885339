import RenderMesh.Proofs.Pack
import RenderMesh.Proofs.Packed.Vertices
import RenderMesh.Proofs.Welder.Numbering

/-!
# Packing without a cache

The unwelded form of triangles lists the vertex of every readable corner, read straight from the
positions and attributes. Packing refines it: reading the packed indices one by one gives the same
list, as long as offsets of vertices are words.
-/

namespace RenderMesh

namespace Mesh

/-- The position that a corner selects. A mesh without positions has the zero vector. -/
def selectedPosition (mesh : Mesh) (corner : Corner) : Vec3 :=
  if h : 0 < mesh.positions.size then
    have := mesh.resolve_positionIndex_lt corner h
    mesh.positions[(mesh.resolve corner).corner.positionIndex.toNat]
  else ⟨.zero, .zero, .zero⟩

/-- The attribute that a corner selects. A mesh without attributes has the default one. -/
def selectedAttribute (mesh : Mesh) (corner : Corner) : VertexAttribute :=
  if h : 0 < mesh.attributes.size then
    have := mesh.resolve_attributeIndex_lt corner h
    mesh.attributes[(mesh.resolve corner).corner.attributeIndex.toNat]
  else {}

/-- The vertices of the readable corners of triangles, each read anew. -/
def unwelded (mesh : Mesh) (triangles : List Triangle) : List Vertex :=
  triangles.flatMap fun triangle => [0, 1, 2].filterMap fun c =>
    if h : triangle.baseCorner.toNat + c < mesh.cornerCount then
      have hp := Nat.lt_of_lt_of_le h (Nat.min_le_left _ _)
      have ha := Nat.lt_of_lt_of_le h (Nat.min_le_right _ _)
      let corner : Corner :=
        ⟨mesh.cornerPositions[triangle.baseCorner.toNat + c],
          mesh.cornerAttributes[triangle.baseCorner.toNat + c]⟩
      some (.ofAttribute (mesh.selectedPosition corner) (mesh.selectedAttribute corner))
    else none

theorem selectedPosition_eq (mesh : Mesh) (corner : Corner) :
    mesh.selectedPosition corner =
      mesh.positions[(mesh.resolve corner).corner.positionIndex.toNat]?.getD default := by
  unfold selectedPosition
  split
  next h =>
    rw [Array.getElem?_eq_getElem (mesh.resolve_positionIndex_lt corner h)]
    rfl
  next h =>
    rw [Array.getElem?_eq_none (by omega)]
    rfl

theorem selectedAttribute_eq (mesh : Mesh) (corner : Corner) :
    mesh.selectedAttribute corner =
      mesh.attributes[(mesh.resolve corner).corner.attributeIndex.toNat]?.getD default := by
  unfold selectedAttribute
  split
  next h =>
    rw [Array.getElem?_eq_getElem (mesh.resolve_attributeIndex_lt corner h)]
    rfl
  next h =>
    rw [Array.getElem?_eq_none (by omega)]
    rfl

theorem unwelded_eq_map_pairs (mesh : Mesh) (triangles : List Triangle) :
    mesh.unwelded triangles = (mesh.pairs triangles).map mesh.vertex := by
  simp only [unwelded, pairs, pairsAt, List.filterMap_flatMap, List.map_flatMap, Triangle.places,
    List.filterMap_map, List.map_filterMap]
  congr 1
  funext triangle
  congr 1
  funext c
  simp only [Function.comp, pair?]
  split
  next h =>
    have hp := Nat.lt_of_lt_of_le h (Nat.min_le_left _ _)
    have ha := Nat.lt_of_lt_of_le h (Nat.min_le_right _ _)
    rw [mesh.corner?_of_lt hp ha]
    simp only [Option.map_some, Mesh.vertex, selectedPosition_eq, selectedAttribute_eq]
  next h =>
    rw [(mesh.corner?_eq_none_iff _).mpr (Nat.le_of_not_lt h)]
    rfl

end Mesh

namespace Welder

variable {mesh : Mesh} {w : Welder} {pairs : List Corner}

theorem Numbered.vertex?_number (h : Numbered mesh pairs w)
    (few : pairs.eraseDups.length ≤ 2 ^ 29) {packed : PackedMesh}
    (hv : packed.vertices = w.vertices) {number : Nat} {pair : Corner}
    (hp : pairs.eraseDups[number]? = some pair) :
    packed.vertex? number.toUInt64 = some (mesh.vertex pair) := by
  have hlt := Nat.lt_of_lt_of_le (List.getElem?_eq_some_iff.mp hp).1 few
  have hnumber : number.toUInt64.toNat = number :=
    Nat.mod_eq_of_lt (Nat.lt_trans hlt (by decide))
  have hstart : number.toUInt64.toNat * Vertex.stride < UInt64.size := by
    rw [hnumber, Vertex.stride, UInt64.size]
    omega
  rw [packed.vertex?_of_lt hstart, hnumber, hv, Nat.mul_comm, h.vertex_at hp]
  exact Vertex.ofFloats?_floats_append _ []

theorem offset_div_stride {number : Nat} (h : number < 2 ^ 29) :
    Vertex.offset number / Vertex.stride.toUInt32 = number.toUInt32 := by
  have hs : Vertex.stride.toUInt32.toNat = 8 := rfl
  have hn : number.toUInt32.toNat = number := Nat.mod_eq_of_lt (Nat.lt_trans h (by decide))
  rw [← UInt32.toNat_inj, UInt32.toNat_div, toNat_offset_of_lt h, hs, hn]
  omega

theorem Numbered.vertex?_of_mem (h : Numbered mesh pairs w)
    (few : pairs.eraseDups.length ≤ 2 ^ 29) {packed : PackedMesh}
    (hv : packed.vertices = w.vertices) {pair : Corner} (hm : pair ∈ pairs) :
    packed.vertex? (Vertex.offset (pairs.eraseDups.idxOf pair) / Vertex.stride.toUInt32).toUInt64 =
      some (mesh.vertex pair) := by
  have hp := FirstAppearance.getElem?_idxOf_eraseDups hm
  have hlt := Nat.lt_of_lt_of_le (List.getElem?_eq_some_iff.mp hp).1 few
  have hword : (pairs.eraseDups.idxOf pair).toUInt32.toUInt64 =
      (pairs.eraseDups.idxOf pair).toUInt64 := by
    rw [← UInt64.toNat_inj, UInt32.toNat_toUInt64]
    exact (Nat.mod_eq_of_lt (Nat.lt_trans hlt (by decide))).trans
      (Nat.mod_eq_of_lt (Nat.lt_trans hlt (by decide))).symm
  rw [offset_div_stride hlt, hword]
  exact h.vertex?_number few hv hp

end Welder

namespace Mesh

theorem length_distinctPairs_le (mesh : Mesh) :
    (mesh.distinctPairs mesh.sortedTriangles).length ≤ 3 * mesh.triangleCount := by
  have hd := FirstAppearance.length_eraseDups_le (mesh.pairs mesh.sortedTriangles)
  have hp := mesh.length_pairs_le mesh.sortedTriangles
  have ht := mesh.length_sortedTriangles_le
  rw [distinctPairs]
  omega

/-- Packing refines the unwelded form: up to `2 ^ 29` distinct pairs, the packed indices read back
its vertices one by one. The material of every triangle is kept, read corners or not. -/
theorem pack_refines_unwelded (mesh : Mesh) (corners : 0 < mesh.cornerCount)
    (materials : 0 < mesh.materials.size)
    (few : (mesh.distinctPairs mesh.sortedTriangles).length ≤ 2 ^ 29) :
    (mesh.pack.vertexIndices.toList.map fun number => mesh.pack.vertex? number.toUInt64) =
      (mesh.unwelded mesh.sortedTriangles).map some ∧
    mesh.pack.materialIds.toList = mesh.sortedTriangles.map Triangle.material := by
  have hp := pack_of_isPackable (isPackable_of_pos corners materials)
  have h := Welder.numbered_weld mesh mesh.sortedTriangles
  have hv : mesh.pack.vertices = (Welder.weld mesh mesh.sortedTriangles).vertices := by rw [hp]
  have hi : mesh.pack.indices = (Welder.weld mesh mesh.sortedTriangles).indices := by rw [hp]
  constructor
  · rw [unwelded_eq_map_pairs, List.map_map, PackedMesh.vertexIndices, Array.toList_map, hi,
      h.indices, List.map_map, List.map_map]
    apply List.map_congr_left
    intro pair hm
    exact h.vertex?_of_mem few hv hm
  · rw [hp]
    exact Welder.weld_materialIds mesh mesh.sortedTriangles

/-- A mesh with a shifted attribute index, a position out of range, a triangle without material
and one corner too few. -/
def frayed : Mesh where
  positions := #[⟨.zero, .zero, .zero⟩, ⟨.ofInt 1, .zero, .zero⟩]
  attributes := #[{}, { uv := ⟨.ofInt 1, .zero⟩ }]
  cornerPositions := #[0, 1, 7, 1, 0]
  cornerAttributes := #[0, 65536, 0, 1, 0, 1]
  triangleMaterials := #[0, 0, 5]
  materials := #[{}]

theorem sortedTriangles_frayed : frayed.sortedTriangles = [⟨0, 0⟩, ⟨3, 0⟩] := by
  have collected : frayed.collectedTriangles = [⟨0, 0⟩, ⟨3, 0⟩] := by decide +kernel
  have sorted : frayed.sortedTriangles = Triangle.sort frayed.collectedTriangles := rfl
  rw [sorted, collected]
  exact List.mergeSort_of_pairwise (by decide)

/-- What the corners of the frayed mesh show. The second has the shifted index, and the third, whose
position is out of range, shows the first position with the first attribute. -/
def frayedVertices : List Vertex :=
  let origin : Vertex := ⟨⟨.zero, .zero, .zero⟩, ⟨.zero, .zero, .zero⟩, ⟨.zero, .zero⟩⟩
  let tip : Vertex := ⟨⟨.ofInt 1, .zero, .zero⟩, ⟨.zero, .zero, .zero⟩, ⟨.ofInt 1, .zero⟩⟩
  [origin, tip, origin, tip, origin]

theorem pack_refines_unwelded_frayed :
    0 < frayed.cornerCount ∧ 0 < frayed.materials.size ∧
    (frayed.distinctPairs frayed.sortedTriangles).length ≤ 2 ^ 29 ∧
    (frayed.pack.vertexIndices.toList.map fun number => frayed.pack.vertex? number.toUInt64) =
      (frayed.unwelded frayed.sortedTriangles).map some ∧
    frayed.pack.materialIds.toList = frayed.sortedTriangles.map Triangle.material ∧
    frayed.unwelded frayed.sortedTriangles = frayedVertices ∧
    frayed.sortedTriangles.map Triangle.material = [0, 0] := by
  have corners : 0 < frayed.cornerCount := by decide
  have materials : 0 < frayed.materials.size := by decide
  have triangles : frayed.triangleCount = 3 := rfl
  have few : (frayed.distinctPairs frayed.sortedTriangles).length ≤ 2 ^ 29 := by
    have hlength := frayed.length_distinctPairs_le
    omega
  obtain ⟨vertices, ids⟩ := pack_refines_unwelded frayed corners materials few
  have read : frayed.unwelded frayed.sortedTriangles = frayedVertices := by
    rw [sortedTriangles_frayed]
    decide +kernel
  have kept : frayed.sortedTriangles.map Triangle.material = [0, 0] := by
    rw [sortedTriangles_frayed]
    rfl
  exact ⟨corners, materials, few, vertices, ids, read, kept⟩

end Mesh

end RenderMesh
