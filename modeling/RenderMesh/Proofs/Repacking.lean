import Mathlib.Data.List.Perm.Subperm
import RenderMesh.Proofs.Material.Deduplication
import RenderMesh.Proofs.Repair
import RenderMesh.Proofs.Report

/-!
# Packing what was packed

An unpacked mesh has the vertices of a packed one as positions and attributes, and its corners name
a vertex by one number twice. Packing it merges no materials, since representatives are not similar,
and leaves triangles in their order, which is by material already. Vertices are numbered by first
appearance, so each gets the number that it had.
-/

namespace RenderMesh

namespace PackedMesh

/-- The mesh that a packed mesh is the packed form of. Light is not packed, so it is up to the
caller. -/
def unpacked (packed : PackedMesh) (light : Nat → UInt32) : Mesh where
  positions := (packed.wholeVertices.map Vertex.position).toArray
  attributes := (packed.wholeVertices.mapIdx fun number vertex =>
    ⟨vertex.normal, vertex.uv, light number⟩).toArray
  cornerPositions := packed.vertexIndices
  cornerAttributes := packed.vertexIndices
  triangleMaterials := packed.materialIds
  materials := packed.materials

end PackedMesh

/-- The corner with one number for position and attribute. -/
def Corner.twin (number : UInt32) : Corner := ⟨number, number⟩

theorem Corner.twin_injective : Function.Injective Corner.twin := by
  intro a b h
  exact congrArg Corner.positionIndex h

/-- Triangles with their corners one after the other. -/
def Triangle.inSequence (triangles : List Triangle) : List Triangle :=
  triangles.mapIdx fun t triangle => ⟨(3 * t).toUInt32, triangle.material⟩

theorem filterMap_range_getElem? {α β : Type} (f : Nat → α → β) (l : List α) :
    ((List.range l.length).filterMap fun i => l[i]?.map (f i)) = l.mapIdx f := by
  induction l using List.reverseRecOn with
  | nil => rfl
  | append_singleton l a ih =>
    have hbefore : ((List.range l.length).filterMap fun i => (l ++ [a])[i]?.map (f i)) =
        (List.range l.length).filterMap fun i => l[i]?.map (f i) := by
      apply List.filterMap_congr
      intro i hi
      rw [List.getElem?_append_left (List.mem_range.mp hi)]
    rw [List.length_append, List.length_singleton, List.range_succ, List.filterMap_append, hbefore,
      ih, List.mapIdx_concat]
    simp

theorem mapIdx_const {α β : Type} (f : α → β) (l : List α) :
    (l.mapIdx fun _ a => f a) = l.map f := by
  apply List.ext_getElem?
  intro i
  rw [List.getElem?_mapIdx, List.getElem?_map]

namespace Triangle

theorem map_material_inSequence (triangles : List Triangle) :
    (inSequence triangles).map material = triangles.map material := by
  apply List.ext_getElem?
  intro i
  simp [inSequence, Function.comp_def]

theorem flatMap_places_inSequence {triangles : List Triangle}
    (few : triangles.length ≤ 1431655766) :
    (inSequence triangles).flatMap places = List.range (3 * triangles.length) := by
  induction triangles using List.reverseRecOn with
  | nil => rfl
  | append_singleton triangles triangle ih =>
    rw [List.length_append, List.length_singleton] at few
    have hlast : 3 * triangles.length < UInt32.size := by
      simp only [UInt32.size]
      omega
    have hplaces : ∀ n, List.range (3 * (n + 1)) = List.range (3 * n) ++ placesOf n := by
      intro n
      simp [Nat.mul_succ, List.range_succ, placesOf]
    rw [inSequence, List.mapIdx_concat, List.flatMap_append, List.flatMap_singleton,
      places_of_lt hlast, List.length_append, List.length_singleton, hplaces, ← ih (by omega)]
    rfl

end Triangle

namespace PackedMesh

variable (packed : PackedMesh) (light : Nat → UInt32)

theorem corner?_unpacked (place : Nat) :
    (packed.unpacked light).corner? place = packed.vertexIndices[place]?.map Corner.twin := by
  simp only [Mesh.corner?, unpacked]
  cases packed.vertexIndices[place]? <;> rfl

theorem cornerCount_unpacked :
    (packed.unpacked light).cornerCount = packed.vertexIndices.size := Nat.min_self _

variable {packed} {number : UInt32}

theorem resolve_twin (h : number.toNat < packed.wholeVertices.length) :
    (packed.unpacked light).resolve (.twin number) = ⟨.twin number, .direct, false⟩ := by
  apply Corner.resolve_of_direct
  · simpa [unpacked, Corner.twin] using h
  · simpa [unpacked, Corner.twin] using h

theorem vertex_twin {vertex : Vertex} (h : packed.wholeVertices[number.toNat]? = some vertex) :
    (packed.unpacked light).vertex (.twin number) = vertex := by
  simp [Mesh.vertex, unpacked, Corner.twin, h, Vertex.ofAttribute]

end PackedMesh

namespace Mesh

/-- A mesh that packs without losing a corner and without offsets that wrap around. -/
structure Repackable (mesh : Mesh) : Prop where
  packable : mesh.isPackable = true
  shown : 0 < mesh.sortedTriangles.length
  whole : ∀ place ∈ mesh.sortedTriangles.flatMap Triangle.places, place < mesh.cornerCount
  few : (mesh.distinctPairs mesh.sortedTriangles).length ≤ 2 ^ 29

/-- The number of the vertex of a pair. -/
def numberOf (mesh : Mesh) (pair : Corner) : UInt32 :=
  ((mesh.distinctPairs mesh.sortedTriangles).idxOf pair).toUInt32

variable {mesh : Mesh}

theorem repackable_of_report (whole : mesh.report.skippedCorners = 0)
    (triangles : 0 < mesh.pack.triangleCount) (few : mesh.pack.vertexCount ≤ 2 ^ 29) :
    mesh.Repackable := by
  by_cases h : mesh.isPackable = true
  · rw [vertexCount_pack h] at few
    rw [triangleCount_pack h] at triangles
    have hskipped := (Welder.seen_weld mesh mesh.sortedTriangles).skipped
    rw [report_of_isPackable h] at whole
    simp only at whole
    rw [whole] at hskipped
    refine ⟨h, triangles, ?_, few⟩
    intro place hp
    have hread := List.countP_eq_zero.mp hskipped.symm place hp
    rw [unreadable_eq, decide_eq_true_eq] at hread
    exact Nat.lt_of_not_le hread
  · rw [pack_of_not_isPackable h] at triangles
    exact absurd triangles (Nat.lt_irrefl 0)

namespace Repackable

theorem length_pairs (h : mesh.Repackable) :
    (mesh.pairs mesh.sortedTriangles).length = 3 * mesh.sortedTriangles.length := by
  rw [Mesh.length_pairs, readable, ← Triangle.length_flatMap_places, List.countP_eq_length]
  intro place hp
  exact decide_eq_true (h.whole place hp)

theorem getElem?_numberOf (h : mesh.Repackable) {pair : Corner}
    (hm : pair ∈ mesh.pairs mesh.sortedTriangles) :
    (mesh.distinctPairs mesh.sortedTriangles)[(mesh.numberOf pair).toNat]? = some pair := by
  have hp := FirstAppearance.getElem?_idxOf_eraseDups hm
  have hlt := Nat.lt_of_lt_of_le (List.getElem?_eq_some_iff.mp hp).1 h.few
  have hnumber : (mesh.numberOf pair).toNat =
      (mesh.distinctPairs mesh.sortedTriangles).idxOf pair :=
    Nat.mod_eq_of_lt (Nat.lt_trans hlt (by decide))
  rw [hnumber]
  exact hp

theorem wholeVertices_pack (h : mesh.Repackable) :
    mesh.pack.wholeVertices = (mesh.distinctPairs mesh.sortedTriangles).map mesh.vertex := by
  have hn := Welder.numbered_weld mesh mesh.sortedTriangles
  have hv : mesh.pack.vertices = (Welder.weld mesh mesh.sortedTriangles).vertices := by
    rw [pack_of_isPackable h.packable]
  rw [PackedMesh.wholeVertices, vertexCount_pack h.packable, ← mapIdx_const,
    ← filterMap_range_getElem?]
  apply List.filterMap_congr
  intro number hnumber
  have hp := List.getElem?_eq_getElem (List.mem_range.mp hnumber)
  rw [hp, Option.map_some]
  exact hn.vertex?_number h.few hv hp

theorem vertexIndices_pack (h : mesh.Repackable) :
    mesh.pack.vertexIndices.toList = (mesh.pairs mesh.sortedTriangles).map mesh.numberOf := by
  rw [PackedMesh.vertexIndices, Array.toList_map, pack_of_isPackable h.packable,
    Welder.weld_indices, List.map_map]
  apply List.map_congr_left
  intro pair hm
  have hp := FirstAppearance.getElem?_idxOf_eraseDups hm
  exact Welder.offset_div_stride
    (Nat.lt_of_lt_of_le (List.getElem?_eq_some_iff.mp hp).1 h.few)

theorem numberOf_lt (h : mesh.Repackable) {pair : Corner}
    (hm : pair ∈ mesh.pairs mesh.sortedTriangles) :
    (mesh.numberOf pair).toNat < mesh.pack.wholeVertices.length := by
  rw [h.wholeVertices_pack, List.length_map]
  exact (List.getElem?_eq_some_iff.mp (h.getElem?_numberOf hm)).1

theorem numberOf_apart (h : mesh.Repackable) :
    ∀ p ∈ mesh.pairs mesh.sortedTriangles, ∀ q ∈ mesh.pairs mesh.sortedTriangles,
      Corner.twin (mesh.numberOf p) = Corner.twin (mesh.numberOf q) → p = q := by
  intro p hp q hq he
  have hpn := h.getElem?_numberOf hp
  rw [Corner.twin_injective he, h.getElem?_numberOf hq] at hpn
  exact (Option.some.inj hpn).symm

theorem vertex_numberOf (h : mesh.Repackable) (light : Nat → UInt32) {pair : Corner}
    (hm : pair ∈ mesh.pairs mesh.sortedTriangles) :
    mesh.vertex pair = (mesh.pack.unpacked light).vertex (.twin (mesh.numberOf pair)) := by
  symm
  apply PackedMesh.vertex_twin
  rw [h.wholeVertices_pack, List.getElem?_map, h.getElem?_numberOf hm, Option.map_some]

theorem corner?_unpacked (h : mesh.Repackable) (light : Nat → UInt32) (place : Nat) :
    (mesh.pack.unpacked light).corner? place =
      (mesh.pairs mesh.sortedTriangles)[place]?.map fun pair => .twin (mesh.numberOf pair) := by
  rw [PackedMesh.corner?_unpacked, ← Array.getElem?_toList, h.vertexIndices_pack,
    List.getElem?_map, Option.map_map]
  rfl

/-- Every corner of the unpacked mesh is in range as it is. -/
theorem resolve_corner? (h : mesh.Repackable) {light : Nat → UInt32} {place : Nat}
    {corner : Corner} (hc : (mesh.pack.unpacked light).corner? place = some corner) :
    (mesh.pack.unpacked light).resolve corner = ⟨corner, .direct, false⟩ := by
  rw [h.corner?_unpacked] at hc
  obtain ⟨pair, hp, rfl⟩ := Option.map_eq_some_iff.mp hc
  exact PackedMesh.resolve_twin light (h.numberOf_lt (List.mem_of_getElem? hp))

theorem pair?_unpacked (h : mesh.Repackable) (light : Nat → UInt32) (place : Nat) :
    (mesh.pack.unpacked light).pair? place =
      (mesh.pairs mesh.sortedTriangles)[place]?.map fun pair => .twin (mesh.numberOf pair) := by
  rw [← h.corner?_unpacked light, pair?]
  cases hc : (mesh.pack.unpacked light).corner? place with
  | none => rfl
  | some corner => rw [Option.map_some, h.resolve_corner? hc]

theorem cornerCount_unpacked (h : mesh.Repackable) (light : Nat → UInt32) :
    (mesh.pack.unpacked light).cornerCount = 3 * mesh.sortedTriangles.length := by
  rw [PackedMesh.cornerCount_unpacked, ← Array.length_toList, h.vertexIndices_pack,
    List.length_map, h.length_pairs]

theorem materialTable_unpacked (h : mesh.Repackable) (light : Nat → UInt32) :
    (mesh.pack.unpacked light).materialTable =
      MaterialTable.ofMaterials mesh.materialTable.materials := by
  rw [materialTable, PackedMesh.unpacked, pack_of_isPackable h.packable]

theorem materialAt?_unpacked (h : mesh.Repackable) (light : Nat → UInt32) (t : Nat) :
    (mesh.pack.unpacked light).materialAt? t =
      mesh.sortedTriangles[t]?.map Triangle.material := by
  have hids : (mesh.pack.unpacked light).triangleMaterials[t]? =
      mesh.sortedTriangles[t]?.map Triangle.material := by
    rw [PackedMesh.unpacked, pack_of_isPackable h.packable, ← Array.getElem?_toList]
    simp only
    rw [Welder.weld_materialIds, List.getElem?_map]
  rw [materialAt?, hids, h.materialTable_unpacked]
  cases ht : mesh.sortedTriangles[t]? with
  | none => rfl
  | some triangle =>
    have hlt := mesh.material_lt_of_mem (List.mem_of_getElem? ht)
    rw [Option.map_some, Option.bind_some, materialTable,
      MaterialTable.get?_ofMaterials_again]
    exact if_pos hlt

theorem collectedTriangles_unpacked (h : mesh.Repackable) (light : Nat → UInt32) :
    (mesh.pack.unpacked light).collectedTriangles = Triangle.inSequence mesh.sortedTriangles := by
  have hcount : (mesh.pack.unpacked light).triangleCount = mesh.sortedTriangles.length :=
    triangleCount_pack h.packable
  have hreach := mesh.length_sortedTriangles_le_reach
  rw [collectedTriangles_eq, hcount, Triangle.inSequence, ← filterMap_range_getElem?]
  apply List.filterMap_congr
  intro t ht
  have haddress : 3 * t < UInt32.size := by
    have hlt := List.mem_range.mp ht
    simp only [UInt32.size]
    omega
  rw [if_pos haddress, h.materialAt?_unpacked, Option.map_map]
  rfl

/-- Packed triangles are in order of material, so sorting leaves them where they are. -/
theorem sortedTriangles_unpacked (h : mesh.Repackable) (light : Nat → UInt32) :
    (mesh.pack.unpacked light).sortedTriangles = Triangle.inSequence mesh.sortedTriangles := by
  have hgrouped : (Triangle.inSequence mesh.sortedTriangles).Pairwise
      fun a b => a.material ≤ b.material := by
    rw [← List.pairwise_map (f := Triangle.material) (R := (· ≤ ·)),
      Triangle.map_material_inSequence, List.pairwise_map]
    exact mesh.groupedOrder_sortedTriangles.grouped
  have hsorted : (mesh.pack.unpacked light).sortedTriangles =
      Triangle.sort (mesh.pack.unpacked light).collectedTriangles := rfl
  rw [hsorted, h.collectedTriangles_unpacked]
  exact List.mergeSort_of_pairwise (hgrouped.imp decide_eq_true)

theorem places_unpacked (h : mesh.Repackable) (light : Nat → UInt32) :
    (mesh.pack.unpacked light).sortedTriangles.flatMap Triangle.places =
      List.range (3 * mesh.sortedTriangles.length) := by
  rw [h.sortedTriangles_unpacked]
  exact Triangle.flatMap_places_inSequence mesh.length_sortedTriangles_le_reach

theorem pairs_unpacked (h : mesh.Repackable) (light : Nat → UInt32) :
    (mesh.pack.unpacked light).pairs (mesh.pack.unpacked light).sortedTriangles =
      (mesh.pairs mesh.sortedTriangles).map fun pair => .twin (mesh.numberOf pair) := by
  rw [pairs, pairsAt, h.places_unpacked, ← h.length_pairs, ← mapIdx_const,
    ← filterMap_range_getElem?]
  apply List.filterMap_congr
  intro place _
  exact h.pair?_unpacked light place

end Repackable

/-- Triangles with all corners readable own three indices each. -/
theorem owners_of_whole {triangles : List Triangle}
    (whole : ∀ place ∈ triangles.flatMap Triangle.places, place < mesh.cornerCount) :
    mesh.owners triangles = (triangles.map Triangle.material).flatMap (List.replicate 3) := by
  rw [owners, List.flatMap_map]
  apply List.flatMap_congr
  intro triangle ht
  have hthree : mesh.readable [triangle] = 3 := by
    rw [readable, List.flatMap_singleton]
    apply List.countP_eq_length.mpr
    intro place hp
    exact decide_eq_true (whole place (List.mem_flatMap.mpr ⟨triangle, ht, hp⟩))
  rw [hthree]

theorem Repackable.whole_unpacked (h : mesh.Repackable) (light : Nat → UInt32) :
    ∀ place ∈ (mesh.pack.unpacked light).sortedTriangles.flatMap Triangle.places,
      place < (mesh.pack.unpacked light).cornerCount := by
  intro place hp
  rw [h.places_unpacked] at hp
  rw [h.cornerCount_unpacked]
  exact List.mem_range.mp hp

theorem countP_unreadable_of_whole {triangles : List Triangle}
    (whole : ∀ place ∈ triangles.flatMap Triangle.places, place < mesh.cornerCount) :
    (triangles.flatMap Triangle.places).countP mesh.unreadable = 0 := by
  apply List.countP_eq_zero.mpr
  intro place hp
  rw [unreadable_eq, decide_eq_true_eq]
  exact Nat.not_le.mpr (whole place hp)

theorem Repackable.sameBuffers_unpacked (h : mesh.Repackable) (light : Nat → UInt32) :
    Welder.SameBuffers (Welder.weld mesh mesh.sortedTriangles)
      (Welder.weld (mesh.pack.unpacked light) (mesh.pack.unpacked light).sortedTriangles) := by
  have hagain := Welder.numbered_weld (mesh.pack.unpacked light)
    (mesh.pack.unpacked light).sortedTriangles
  have hwhole := h.whole_unpacked light
  have hmaterials : (mesh.pack.unpacked light).sortedTriangles.map Triangle.material =
      mesh.sortedTriangles.map Triangle.material := by
    rw [h.sortedTriangles_unpacked, Triangle.map_material_inSequence]
  rw [h.pairs_unpacked] at hagain
  obtain ⟨hvertices, hindices, hwelded⟩ :=
    (Welder.numbered_weld mesh mesh.sortedTriangles).renamed hagain h.numberOf_apart
      fun pair hp => h.vertex_numberOf light hp
  constructor
  · exact hvertices
  · exact hindices
  · apply Array.toList_inj.mp
    rw [Welder.weld_materialIds, Welder.weld_materialIds, hmaterials]
  · rw [Welder.weld_drawRanges, Welder.weld_drawRanges, owners_of_whole h.whole,
      owners_of_whole hwhole, hmaterials]
  · rw [(Welder.seen_weld _ _).skipped, (Welder.seen_weld _ _).skipped,
      countP_unreadable_of_whole h.whole, countP_unreadable_of_whole hwhole]
  · exact hwelded

theorem Repackable.isPackable_unpacked (h : mesh.Repackable) (light : Nat → UInt32) :
    (mesh.pack.unpacked light).isPackable = true := by
  have hshown := h.shown
  apply isPackable_of_pos
  · rw [h.cornerCount_unpacked]
    omega
  · have hmaterials := (mesh.isPackable_iff.mp h.packable).2
    rw [PackedMesh.unpacked, pack_of_isPackable h.packable]
    exact MaterialTable.ofMaterials_materials_pos (Nat.pos_of_ne_zero hmaterials)

/-! ### The mesh and its report once more -/

theorem Repackable.pack_again (h : mesh.Repackable) (light : Nat → UInt32) :
    (mesh.pack.unpacked light).pack = mesh.pack := by
  have hsame := h.sameBuffers_unpacked light
  have hmaterials : (mesh.pack.unpacked light).materialTable.materials =
      mesh.materialTable.materials := by
    rw [h.materialTable_unpacked]
    exact MaterialTable.materials_ofMaterials_again mesh.materials
  rw [pack_of_isPackable (h.isPackable_unpacked light), ← hsame.vertices, ← hsame.indices,
    ← hsame.materialIds, ← hsame.drawRanges, hmaterials]
  exact (pack_of_isPackable h.packable).symm

theorem Repackable.report_again (h : mesh.Repackable) (light : Nat → UInt32) :
    (mesh.pack.unpacked light).report = { weldedCorners := mesh.report.weldedCorners } := by
  have hsame := h.sameBuffers_unpacked light
  have hskipped := (Welder.seen_weld _ _).skipped.trans
    (countP_unreadable_of_whole (h.whole_unpacked light))
  have hkept : (mesh.pack.unpacked light).sortedTriangles.length =
      (mesh.pack.unpacked light).triangleCount := by
    rw [h.sortedTriangles_unpacked, Triangle.inSequence, List.length_mapIdx]
    exact (triangleCount_pack h.packable).symm
  obtain ⟨hcorrected, hfallback⟩ := report_of_direct fun _ _ hc => h.resolve_corner? hc
  rw [report_of_isPackable (h.isPackable_unpacked light)] at hcorrected hfallback ⊢
  rw [report_of_isPackable h.packable, PackReport.mk.injEq]
  refine ⟨?_, ?_, hskipped, hcorrected, hfallback, hsame.welded.symm⟩
  · rw [h.materialTable_unpacked]
    exact MaterialTable.mergedCount_ofMaterials_again mesh.materials
  · rw [hkept]
    exact Nat.sub_self _

/-- Packing what was packed changes nothing. No material is merged, no triangle is dropped and no
corner is repaired or skipped; corners are welded as before. -/
theorem pack_unpacked (mesh : Mesh) (light : Nat → UInt32)
    (whole : mesh.report.skippedCorners = 0) (triangles : 0 < mesh.pack.triangleCount)
    (few : mesh.pack.vertexCount ≤ 2 ^ 29) :
    (mesh.pack.unpacked light).pack = mesh.pack ∧
    (mesh.pack.unpacked light).report = { weldedCorners := mesh.report.weldedCorners } :=
  have h := repackable_of_report whole triangles few
  ⟨h.pack_again light, h.report_again light⟩

/-- Triangles in the wrong order of material, one of them without a material. Corners are shared, an
attribute index is shifted, and no material is similar to itself. -/
def tangled : Mesh where
  positions := #[⟨.zero, .zero, .zero⟩, ⟨.ofInt 1, .zero, .zero⟩]
  attributes := #[{}, { uv := ⟨.ofInt 1, .zero⟩ }]
  cornerPositions := #[0, 1, 0, 0, 0, 0, 1, 1, 0]
  cornerAttributes := #[0, 1, 1, 0, 0, 0, 65536, 0, 0]
  triangleMaterials := #[1, 7, 0]
  materials := #[{ smoothAngle := .nan }, { smoothAngle := .nan }]

theorem pack_unpacked_tangled :
    tangled.report.skippedCorners = 0 ∧ 0 < tangled.pack.triangleCount ∧
    tangled.pack.vertexCount ≤ 2 ^ 29 ∧
    (tangled.pack.unpacked fun number => number.toUInt32).pack = tangled.pack ∧
    (tangled.pack.unpacked fun number => number.toUInt32).report =
      { weldedCorners := tangled.report.weldedCorners } := by
  have packable : tangled.isPackable = true := by decide
  have fewMaterials : tangled.materials.size ≤ MaterialTable.capacity := by decide
  have fewTriangles : tangled.triangleCount ≤ 1431655766 := by decide
  have whole : tangled.report.skippedCorners = 0 := by
    rw [(reported_report packable fewMaterials fewTriangles).skipped]
    decide
  have triangles : 0 < tangled.pack.triangleCount := by
    rw [triangleCount_pack packable, length_sortedTriangles fewMaterials fewTriangles]
    decide
  have few : tangled.pack.vertexCount ≤ 2 ^ 29 := by
    have hlength := tangled.length_distinctPairs_le
    have hthree : tangled.triangleCount = 3 := rfl
    rw [vertexCount_pack packable]
    omega
  exact ⟨whole, triangles, few, pack_unpacked tangled _ whole triangles few⟩

end Mesh

end RenderMesh
