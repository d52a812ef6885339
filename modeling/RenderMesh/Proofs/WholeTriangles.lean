import RenderMesh.Proofs.Kept
import RenderMesh.Proofs.Unwelded
import RenderMesh.Proofs.Welder.Ties

/-!
# Whole triangles of a draw range

Corners go missing at the end of the corner streams only. With ties in the order given, the one
triangle that is cut short is the last of its material to emit anything, so the indices of a range
are whole triangles from its start on, and what is left over stands at its end.
-/

namespace RenderMesh

namespace Welder

/-- What the groups of three of a list leave at its end. -/
def leftover {α : Type} : List α → List α
  | _ :: _ :: _ :: rest => leftover rest
  | l => l

theorem groups_of_length_lt {α : Type} {l : List α} (h : l.length < 3) : groups l = [] := by
  match l, h with
  | [], _ => rfl
  | [_], _ => rfl
  | [_, _], _ => rfl

theorem leftover_of_length_lt {α : Type} {l : List α} (h : l.length < 3) : leftover l = l := by
  match l, h with
  | [], _ => rfl
  | [_], _ => rfl
  | [_, _], _ => rfl

theorem leftover_flatMap_append {α β : Type} {f : α → List β} {l : List α}
    (hf : ∀ a ∈ l, (f a).length = 3) (tail : List β) :
    leftover (l.flatMap f ++ tail) = leftover tail := by
  induction l with
  | nil => rfl
  | cons a rest ih =>
    obtain ⟨x, y, z, hxyz⟩ := List.length_eq_three.mp (hf a List.mem_cons_self)
    rw [List.flatMap_cons, List.append_assoc, hxyz]
    exact ih fun b hb => hf b (List.mem_cons_of_mem a hb)

end Welder

def PackedMesh.rangeIndices (packed : PackedMesh) (range : DrawRange) : List UInt32 :=
  (packed.indices.extract range.firstIndex range.stop).toList

namespace Mesh

/-- The index of the corner at a place: where the vertex of its pair starts. -/
def index? (mesh : Mesh) (place : Nat) : Option UInt32 :=
  (mesh.pair? place).map fun pair =>
    Vertex.offset ((mesh.distinctPairs mesh.sortedTriangles).idxOf pair)

/-- The indices of the three corners of triangle `t`. -/
def triple? (mesh : Mesh) (t : Nat) : Option (UInt32 × UInt32 × UInt32) :=
  match mesh.index? (3 * t), mesh.index? (3 * t + 1), mesh.index? (3 * t + 2) with
  | some a, some b, some c => some (a, b, c)
  | _, _, _ => none

/-- The indices of the readable corners of triangle `t`. -/
def indicesOf (mesh : Mesh) (t : Nat) : List UInt32 :=
  (Triangle.placesOf t).filterMap mesh.index?

/-- The triangles of a material with three readable corners, in the order given. -/
def wholeOf (mesh : Mesh) (material : UInt32) : List Nat :=
  (mesh.trianglesOf material).filter fun t => 3 * t + 2 < mesh.cornerCount

/-- What a material has of the triangle where the corner streams end. -/
def remainderOf (mesh : Mesh) (material : UInt32) : List UInt32 :=
  if mesh.cornerCount / 3 ∈ mesh.trianglesOf material then mesh.indicesOf (mesh.cornerCount / 3)
  else []

/-- The packed indices that the triangle of a number emitted when it was welded. -/
def emitted (mesh : Mesh) (number : Nat) : List UInt32 :=
  (mesh.pack.indices.extract
    (Welder.weld mesh (mesh.sortedTriangles.take number)).indices.size
    (Welder.weld mesh (mesh.sortedTriangles.take (number + 1))).indices.size).toList

variable (mesh : Mesh)

theorem isSome_index? (place : Nat) :
    (mesh.index? place).isSome = decide (place < mesh.cornerCount) := by
  rw [index?, Option.isSome_map, isSome_pair?]

theorem length_indicesOf (t : Nat) :
    (mesh.indicesOf t).length = min 3 (mesh.cornerCount - 3 * t) := by
  rw [indicesOf, List.length_filterMap_eq_countP]
  simp only [isSome_index?, Triangle.placesOf, List.map_cons, List.map_nil, List.countP_cons,
    List.countP_nil, decide_eq_true_eq]
  split <;> split <;> split <;> omega

theorem length_indicesOf_of_mem {material : UInt32} {t : Nat} (h : t ∈ mesh.wholeOf material) :
    (mesh.indicesOf t).length = 3 := by
  have hlt := of_decide_eq_true (List.mem_filter.mp h).2
  rw [length_indicesOf]
  omega

theorem length_remainderOf (material : UInt32) :
    (mesh.remainderOf material).length =
      if mesh.cornerCount / 3 ∈ mesh.trianglesOf material then mesh.cornerCount % 3 else 0 := by
  rw [remainderOf]
  split
  · rw [length_indicesOf]
    omega
  · rfl

theorem length_remainderOf_lt (material : UInt32) : (mesh.remainderOf material).length < 3 := by
  rw [length_remainderOf]
  split <;> omega

theorem groups_indicesOf {t : Nat} (h : 3 * t + 2 < mesh.cornerCount) :
    (Welder.groups (mesh.indicesOf t)).map some = [mesh.triple? t] := by
  have hread : ∀ place, place ≤ 3 * t + 2 → ∃ index, mesh.index? place = some index := by
    intro place hp
    apply Option.isSome_iff_exists.mp
    rw [isSome_index?]
    exact decide_eq_true (by omega)
  obtain ⟨a, ha⟩ := hread (3 * t) (by omega)
  obtain ⟨b, hb⟩ := hread (3 * t + 1) (by omega)
  obtain ⟨c, hc⟩ := hread (3 * t + 2) (by omega)
  simp [indicesOf, Triangle.placesOf, triple?, ha, hb, hc, Welder.groups]

theorem nodup_trianglesOf (material : UInt32) : (mesh.trianglesOf material).Nodup :=
  List.nodup_range.filter _

/-- The triangles of a material are those that are whole, the one where the streams end, and those
past it. -/
theorem trianglesOf_split (material : UInt32) :
    mesh.trianglesOf material = mesh.wholeOf material ++
      ((if mesh.cornerCount / 3 ∈ mesh.trianglesOf material then [mesh.cornerCount / 3] else []) ++
        (mesh.trianglesOf material).filter fun t => mesh.cornerCount / 3 < t) := by
  have hsorted : (mesh.trianglesOf material).Pairwise (· ≤ ·) := List.pairwise_le_range.filter _
  have hsplit := ByKey.split (fun t => t) hsorted (mesh.cornerCount / 3)
  have hwhole : ((mesh.trianglesOf material).filter fun t => t < mesh.cornerCount / 3) =
      mesh.wholeOf material := by
    apply List.filter_congr
    intro t _
    rw [decide_eq_decide]
    omega
  have hend : ((mesh.trianglesOf material).filter fun t => t = mesh.cornerCount / 3) =
      if mesh.cornerCount / 3 ∈ mesh.trianglesOf material then [mesh.cornerCount / 3] else [] := by
    rw [List.filter_eq, (mesh.nodup_trianglesOf material).count]
    split <;> rfl
  rw [hwhole, hend] at hsplit
  exact hsplit

theorem map_pairsAt (places : List Nat) :
    ((mesh.pairsAt places).map fun pair =>
      Vertex.offset ((mesh.distinctPairs mesh.sortedTriangles).idxOf pair)) =
        places.filterMap mesh.index? := by
  rw [pairsAt, List.map_filterMap]
  rfl

variable {mesh}

theorem rangeIndices_pack (h : mesh.isPackable = true) {range : DrawRange}
    (hr : range ∈ mesh.pack.drawRanges) :
    mesh.pack.rangeIndices range = (mesh.trianglesOf range.material).flatMap mesh.indicesOf := by
  rw [pack_of_isPackable h] at hr
  rw [pack_of_isPackable h, PackedMesh.rangeIndices,
    Welder.rangeIndices_weld mesh mesh.groupedOrder_sortedTriangles.grouped
      (Array.mem_toList_iff.mpr hr),
    ofMaterial_sortedTriangles, pairs_eq_flatMap, List.flatMap_map, List.map_flatMap]
  apply List.flatMap_congr
  intro t ht
  have hkept := of_decide_eq_true (List.mem_filter.mp ht).2
  rw [Triangle.places_of_lt hkept.1, map_pairsAt]
  rfl

theorem indicesOf_past (material : UInt32) :
    ((mesh.trianglesOf material).filter fun t =>
      mesh.cornerCount / 3 < t).flatMap mesh.indicesOf = [] := by
  -- Past the triangle where the streams end nothing can be read.
  rw [List.flatMap_eq_nil_iff]
  intro t ht
  have hlt := of_decide_eq_true (List.mem_filter.mp ht).2
  have hlength := mesh.length_indicesOf t
  exact List.eq_nil_of_length_eq_zero (by omega)

theorem rangeIndices_split (h : mesh.isPackable = true) {range : DrawRange}
    (hr : range ∈ mesh.pack.drawRanges) :
    mesh.pack.rangeIndices range =
      (mesh.wholeOf range.material).flatMap mesh.indicesOf ++ mesh.remainderOf range.material := by
  rw [rangeIndices_pack h hr]
  conv => lhs; rw [trianglesOf_split]
  rw [List.flatMap_append, List.flatMap_append, indicesOf_past, List.append_nil, remainderOf]
  split
  · rw [List.flatMap_singleton]
  · rfl

/-- A range of a packed mesh whose indices are whole triangles, in the order given, and at its end
what can be read of the triangle where the corner streams end. -/
structure CutByTriangles (mesh : Mesh) (range : DrawRange) : Prop where
  emitted : ∀ number triangle, mesh.sortedTriangles[number]? = some triangle →
    mesh.emitted number = triangle.places.filterMap mesh.index?
  whole : (Welder.groups (mesh.pack.rangeIndices range)).map some =
    (mesh.wholeOf range.material).map mesh.triple?
  leftover : Welder.leftover (mesh.pack.rangeIndices range) = mesh.remainderOf range.material
  short : (Welder.leftover (mesh.pack.rangeIndices range)).length =
    if mesh.cornerCount / 3 ∈ mesh.trianglesOf range.material then mesh.cornerCount % 3 else 0

theorem emitted_eq (h : mesh.isPackable = true) {number : Nat} {triangle : Triangle}
    (ht : mesh.sortedTriangles[number]? = some triangle) :
    mesh.emitted number = triangle.places.filterMap mesh.index? := by
  have htake : mesh.sortedTriangles.take (number + 1) =
      mesh.sortedTriangles.take number ++ [triangle] := by
    rw [List.take_add_one, ht]
    rfl
  have hpairs : mesh.pairs (mesh.sortedTriangles.take (number + 1)) =
      mesh.pairs (mesh.sortedTriangles.take number) ++ mesh.pairsAt triangle.places := by
    rw [htake, pairs_append, mesh.pairs_eq_flatMap [triangle], List.flatMap_singleton]
  have hsplit := congrArg mesh.pairs
    (List.take_append_drop (number + 1) mesh.sortedTriangles)
  rw [pairs_append, hpairs, List.append_assoc] at hsplit
  rw [emitted, pack_of_isPackable h, (Welder.numbered_weld mesh _).indices_size,
    (Welder.numbered_weld mesh _).indices_size, hpairs, List.length_append]
  simp only [Array.toList_extract, List.extract_eq_take_drop, Nat.add_sub_cancel_left]
  rw [Welder.weld_indices, ← List.map_drop, ← List.map_take, ← hsplit, List.drop_left,
    List.take_left, map_pairsAt]

theorem cutByTriangles (h : mesh.isPackable = true) {range : DrawRange}
    (hr : range ∈ mesh.pack.drawRanges) : mesh.CutByTriangles range := by
  have hsplit := rangeIndices_split h hr
  have hshort := mesh.length_remainderOf_lt range.material
  have hthree : ∀ t ∈ mesh.wholeOf range.material, (mesh.indicesOf t).length = 3 :=
    fun t ht => mesh.length_indicesOf_of_mem ht
  have hleftover : Welder.leftover (mesh.pack.rangeIndices range) =
      mesh.remainderOf range.material := by
    rw [hsplit, Welder.leftover_flatMap_append hthree, Welder.leftover_of_length_lt hshort]
  constructor
  · intro number triangle ht
    exact emitted_eq h ht
  · rw [hsplit, Welder.groups_flatMap_append hthree, Welder.groups_of_length_lt hshort,
      List.append_nil, List.map_flatMap, List.map_eq_flatMap]
    apply List.flatMap_congr
    intro t ht
    exact mesh.groups_indicesOf (of_decide_eq_true (List.mem_filter.mp ht).2)
  · exact hleftover
  · rw [hleftover, length_remainderOf]

theorem material_of_leftover {range : DrawRange} (h : mesh.CutByTriangles range)
    (hl : Welder.leftover (mesh.pack.rangeIndices range) ≠ []) :
    mesh.materialAt? (mesh.cornerCount / 3) = some range.material := by
  by_cases hm : mesh.cornerCount / 3 ∈ mesh.trianglesOf range.material
  · exact (of_decide_eq_true (List.mem_filter.mp hm).2).2
  · rw [h.leftover, remainderOf, if_neg hm] at hl
    exact absurd rfl hl

/-- Every range is cut into the whole triangles of its material, and at most one range has anything
left over. -/
theorem ranges_cut_by_triangles (mesh : Mesh) :
    (∀ range ∈ mesh.pack.drawRanges, mesh.CutByTriangles range) ∧
    ∀ first ∈ mesh.pack.drawRanges, ∀ second ∈ mesh.pack.drawRanges,
      Welder.leftover (mesh.pack.rangeIndices first) ≠ [] →
      Welder.leftover (mesh.pack.rangeIndices second) ≠ [] → first = second := by
  by_cases h : mesh.isPackable = true
  · refine ⟨fun range => cutByTriangles h, ?_⟩
    intro first hf second hs hfl hsl
    have hfm := material_of_leftover (cutByTriangles h hf) hfl
    have hsm := material_of_leftover (cutByTriangles h hs) hsl
    rw [hfm] at hsm
    exact DrawRange.eq_of_material_eq (Welder.drawRanges_pack h).2.increasing
      (Array.mem_toList_iff.mpr hf) (Array.mem_toList_iff.mpr hs) (Option.some.inj hsm)
  · simp [pack_of_not_isPackable h]

/-- The second triangle of the frayed mesh has two corners, and they are left over. -/
theorem ranges_cut_by_triangles_frayed :
    ⟨0, 0, 5⟩ ∈ frayed.pack.drawRanges ∧ frayed.CutByTriangles ⟨0, 0, 5⟩ ∧
    (Welder.leftover (frayed.pack.rangeIndices ⟨0, 0, 5⟩)).length = 2 := by
  have packable : frayed.isPackable = true := by decide
  have ranges : frayed.pack.drawRanges = #[⟨0, 0, 5⟩] := by
    rw [pack_of_isPackable packable, Welder.weld_drawRanges, sortedTriangles_frayed]
    decide +kernel
  have mem : ⟨0, 0, 5⟩ ∈ frayed.pack.drawRanges := by
    rw [ranges]
    exact Array.mem_singleton.mpr rfl
  have cut := (ranges_cut_by_triangles frayed).1 ⟨0, 0, 5⟩ mem
  refine ⟨mem, cut, ?_⟩
  rw [cut.short]
  decide +kernel

end Mesh

end RenderMesh
