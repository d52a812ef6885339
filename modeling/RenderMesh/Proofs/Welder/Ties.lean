import Mathlib.Data.List.Basic
import RenderMesh.Proofs.Welder.DrawRanges

/-!
# Ties between triangles

Triangles of one material may be welded in any order. The order numbers the vertices and fills the
buffers, but it changes neither the draw ranges nor the counters, and a range draws the corners of
the triangles of its material, whatever their order.
-/

namespace RenderMesh

namespace Triangle

/-- Triangles in order of material are those of smaller materials, of a material and of greater
ones. -/
theorem split_ofMaterial {triangles : List Triangle}
    (grouped : triangles.Pairwise fun a b => a.material ≤ b.material) (material : UInt32) :
    triangles = (triangles.filter fun triangle => triangle.material < material) ++
      (ofMaterial material triangles ++
        triangles.filter fun triangle => material < triangle.material) :=
  ByKey.split Triangle.material grouped material

theorem map_material_eq_of_perm {first second : List Triangle} (h : first.Perm second)
    (hf : first.Pairwise fun a b => a.material ≤ b.material)
    (hs : second.Pairwise fun a b => a.material ≤ b.material) :
    first.map material = second.map material :=
  List.Perm.eq_of_pairwise (fun _ _ _ _ => UInt32.le_antisymm) (List.pairwise_map.mpr hf)
    (List.pairwise_map.mpr hs) (h.map material)

end Triangle

namespace Mesh

variable (mesh : Mesh) {first second : List Triangle}

theorem places_perm (h : first.Perm second) :
    (first.flatMap Triangle.places).Perm (second.flatMap Triangle.places) :=
  h.flatMap_right _

theorem pairs_perm (h : first.Perm second) : (mesh.pairs first).Perm (mesh.pairs second) :=
  (places_perm h).filterMap _

theorem distinctPairs_perm (h : first.Perm second) :
    (mesh.distinctPairs first).Perm (mesh.distinctPairs second) :=
  FirstAppearance.perm_eraseDups (mesh.pairs_perm h)

theorem owners_eq_of_perm (h : first.Perm second)
    (hf : first.Pairwise fun a b => a.material ≤ b.material)
    (hs : second.Pairwise fun a b => a.material ≤ b.material) :
    mesh.owners first = mesh.owners second :=
  List.Perm.eq_of_pairwise (fun _ _ _ _ => UInt32.le_antisymm) (mesh.pairwise_owners hf)
    (mesh.pairwise_owners hs) (h.flatMap_right _)

end Mesh

namespace Welder

/-- The vertices as blocks of eight numbers. -/
def vertexBlocks (w : Welder) : List (List Single) :=
  (List.range (w.vertices.size / 8)).map fun number =>
    (w.vertices.extract (8 * number) (8 * number + 8)).toList

/-- The corners of a range, read through the vertices. -/
def rangeCorners (w : Welder) (range : DrawRange) : List (List Single) :=
  (w.indices.extract range.firstIndex range.stop).toList.map w.vertexAt

/-- The groups of three that follow each other in a list. -/
def groups {α : Type} : List α → List (α × α × α)
  | a :: b :: c :: rest => (a, b, c) :: groups rest
  | _ => []

theorem groups_flatMap_append {α β : Type} {f : α → List β} {l : List α}
    (hf : ∀ a ∈ l, (f a).length = 3) (tail : List β) :
    groups (l.flatMap f ++ tail) = (l.flatMap fun a => groups (f a)) ++ groups tail := by
  induction l with
  | nil => rfl
  | cons a rest ih =>
    obtain ⟨x, y, z, hxyz⟩ := List.length_eq_three.mp (hf a List.mem_cons_self)
    have hr := ih fun b hb => hf b (List.mem_cons_of_mem a hb)
    rw [List.flatMap_cons, List.flatMap_cons, List.append_assoc, List.append_assoc, hxyz, ← hr]
    rfl

theorem groups_flatMap {α β : Type} {f : α → List β} {l : List α}
    (hf : ∀ a ∈ l, (f a).length = 3) :
    groups (l.flatMap f) = l.flatMap fun a => groups (f a) := by
  simpa [groups] using groups_flatMap_append hf []

theorem vertexBlocks_weld (mesh : Mesh) (triangles : List Triangle) :
    (weld mesh triangles).vertexBlocks =
      (mesh.distinctPairs triangles).map fun pair => (mesh.vertex pair).floats := by
  have hsize := weld_vertices_size mesh triangles
  have hcount : (weld mesh triangles).vertices.size / 8 =
      (mesh.distinctPairs triangles).length := by omega
  apply List.ext_getElem
  · rw [vertexBlocks, List.length_map, List.length_map, List.length_range, hcount]
  · intro number hblock hpair
    rw [List.length_map] at hpair
    simp only [vertexBlocks, List.getElem_map, List.getElem_range]
    exact (numbered_weld mesh triangles).vertex_at (List.getElem?_eq_getElem hpair)

/-- A range holds the indices of the triangles of its material in their order. -/
theorem rangeIndices_weld (mesh : Mesh) {triangles : List Triangle}
    (grouped : triangles.Pairwise fun a b => a.material ≤ b.material) {range : DrawRange}
    (hr : range ∈ (weld mesh triangles).drawRanges.toList) :
    ((weld mesh triangles).indices.extract range.firstIndex range.stop).toList =
      (mesh.pairs (Triangle.ofMaterial range.material triangles)).map fun pair =>
        Vertex.offset ((mesh.distinctPairs triangles).idxOf pair) := by
  have hcounts := (runs_weld mesh triangles).counts (mesh.pairwise_owners grouped) hr
  obtain ⟨hfirst, hcount⟩ := hcounts
  rw [mesh.countP_owners, ← mesh.length_pairs] at hfirst
  rw [mesh.countP_owners_eq, ← mesh.length_pairs] at hcount
  have hsplit := congrArg mesh.pairs (Triangle.split_ofMaterial grouped range.material)
  rw [mesh.pairs_append, mesh.pairs_append] at hsplit
  rw [Array.toList_extract, List.extract_eq_take_drop, DrawRange.stop, Nat.add_sub_cancel_left,
    weld_indices, ← List.map_drop, ← List.map_take, hsplit, List.drop_left' hfirst.symm,
    List.take_left' hcount.symm]

theorem mem_pairs_of_ofMaterial {mesh : Mesh} {triangles : List Triangle} {material : UInt32}
    {pair : Corner} (h : pair ∈ mesh.pairs (Triangle.ofMaterial material triangles)) :
    pair ∈ mesh.pairs triangles := by
  rw [mesh.pairs_eq_flatMap, List.mem_flatMap] at h ⊢
  obtain ⟨triangle, ht, hp⟩ := h
  exact ⟨triangle, List.mem_of_mem_filter ht, hp⟩

/-- A range draws the corners of the triangles of its material in their order. -/
theorem rangeCorners_weld (mesh : Mesh) {triangles : List Triangle}
    (grouped : triangles.Pairwise fun a b => a.material ≤ b.material)
    (few : (mesh.distinctPairs triangles).length ≤ 2 ^ 29) {range : DrawRange}
    (hr : range ∈ (weld mesh triangles).drawRanges.toList) :
    (weld mesh triangles).rangeCorners range =
      (mesh.pairs (Triangle.ofMaterial range.material triangles)).map fun pair =>
        (mesh.vertex pair).floats := by
  rw [rangeCorners, rangeIndices_weld mesh grouped hr, List.map_map]
  apply List.map_congr_left
  intro pair hp
  exact (numbered_weld mesh triangles).vertexAt_offset few (mem_pairs_of_ofMaterial hp)

theorem length_pairsAt_of_unskipped {mesh : Mesh} {triangles : List Triangle}
    (h : (weld mesh triangles).skippedCorners = 0) {triangle : Triangle}
    (ht : triangle ∈ triangles) : (mesh.pairsAt triangle.places).length = 3 := by
  rw [(seen_weld mesh triangles).skipped, List.countP_eq_zero] at h
  rw [Mesh.pairsAt, List.length_filterMap_eq_countP]
  have hall : triangle.places.countP (fun place => (mesh.pair? place).isSome) =
      triangle.places.length := by
    rw [List.countP_eq_length]
    intro place hp
    have hread := h place (List.mem_flatMap.mpr ⟨triangle, ht, hp⟩)
    rw [Mesh.pair?, Option.isSome_map, Option.isSome_iff_ne_none]
    intro hnone
    exact hread (by rw [Mesh.unreadable, hnone]; rfl)
  rw [hall]
  rfl

/-- With all corners read, a range draws the triangles of its material: groups of three do not
straddle them. -/
theorem groups_rangeCorners_weld (mesh : Mesh) {triangles : List Triangle}
    (grouped : triangles.Pairwise fun a b => a.material ≤ b.material)
    (few : (mesh.distinctPairs triangles).length ≤ 2 ^ 29) {range : DrawRange}
    (hr : range ∈ (weld mesh triangles).drawRanges.toList)
    (hall : (weld mesh triangles).skippedCorners = 0) :
    groups ((weld mesh triangles).rangeCorners range) =
      (Triangle.ofMaterial range.material triangles).flatMap fun triangle =>
        groups ((mesh.pairsAt triangle.places).map fun pair => (mesh.vertex pair).floats) := by
  rw [rangeCorners_weld mesh grouped few hr, mesh.pairs_eq_flatMap, List.map_flatMap]
  apply groups_flatMap
  intro triangle ht
  rw [List.length_map]
  exact length_pairsAt_of_unskipped hall (List.mem_of_mem_filter ht)

/-- Welders that only differ in how vertices are numbered and in which order they were met. -/
structure Alike (first second : Welder) : Prop where
  materialIds : first.materialIds = second.materialIds
  drawRanges : first.drawRanges = second.drawRanges
  skipped : first.skippedCorners = second.skippedCorners
  corrected : first.correctedAttributes = second.correctedAttributes
  fallback : first.fallbackCorners = second.fallbackCorners
  welded : first.weldedCorners = second.weldedCorners
  indices : first.indices.size = second.indices.size
  vertices : first.vertexBlocks.Perm second.vertexBlocks

/-- Welders that draw the same corners for a range, and the same triangles when all corners were
read. -/
structure DrawAlike (first second : Welder) (range : DrawRange) : Prop where
  corners : (first.rangeCorners range).Perm (second.rangeCorners range)
  triangles : first.skippedCorners = 0 →
    (groups (first.rangeCorners range)).Perm (groups (second.rangeCorners range))

variable (mesh : Mesh) {first second : List Triangle}

theorem alike_of_perm (h : first.Perm second)
    (hf : first.Pairwise fun a b => a.material ≤ b.material)
    (hs : second.Pairwise fun a b => a.material ≤ b.material) :
    Alike (weld mesh first) (weld mesh second) := by
  have hplaces := Mesh.places_perm h
  have hpairs := mesh.pairs_perm h
  have hdistinct := mesh.distinctPairs_perm h
  have hseen := seen_weld mesh first
  have hagain := seen_weld mesh second
  refine ⟨?_, ?_, ?_, ?_, ?_, ?_, ?_, ?_⟩
  · apply Array.toList_inj.mp
    rw [weld_materialIds, weld_materialIds, Triangle.map_material_eq_of_perm h hf hs]
  · rw [weld_drawRanges, weld_drawRanges, mesh.owners_eq_of_perm h hf hs]
  · rw [hseen.skipped, hagain.skipped, hplaces.countP_eq]
  · rw [hseen.corrected, hagain.corrected, hplaces.countP_eq]
  · rw [hseen.fallback, hagain.fallback, hplaces.countP_eq]
  · have hw := (numbered_weld mesh first).welded
    have hw' := (numbered_weld mesh second).welded
    have hp := hpairs.length_eq
    have hd := hdistinct.length_eq
    rw [Mesh.distinctPairs, Mesh.distinctPairs] at hd
    omega
  · rw [(numbered_weld mesh first).indices_size, (numbered_weld mesh second).indices_size,
      hpairs.length_eq]
  · rw [vertexBlocks_weld, vertexBlocks_weld]
    exact hdistinct.map _

theorem drawAlike_of_perm (h : first.Perm second)
    (hf : first.Pairwise fun a b => a.material ≤ b.material)
    (hs : second.Pairwise fun a b => a.material ≤ b.material)
    (few : (mesh.distinctPairs first).length ≤ 2 ^ 29) {range : DrawRange}
    (hr : range ∈ (weld mesh first).drawRanges.toList) :
    DrawAlike (weld mesh first) (weld mesh second) range := by
  have halike := alike_of_perm mesh h hf hs
  have hgroup : (Triangle.ofMaterial range.material first).Perm
      (Triangle.ofMaterial range.material second) := h.filter _
  have few' : (mesh.distinctPairs second).length ≤ 2 ^ 29 := by
    rw [← (mesh.distinctPairs_perm h).length_eq]
    exact few
  have hr' : range ∈ (weld mesh second).drawRanges.toList := by
    rw [← halike.drawRanges]
    exact hr
  constructor
  · rw [rangeCorners_weld mesh hf few hr, rangeCorners_weld mesh hs few' hr']
    exact (mesh.pairs_perm hgroup).map _
  · intro hall
    have hagain : (weld mesh second).skippedCorners = 0 := by
      rw [← halike.skipped]
      exact hall
    rw [groups_rangeCorners_weld mesh hf few hr hall,
      groups_rangeCorners_weld mesh hs few' hr' hagain]
    exact hgroup.flatMap_right _

/-- Ties decide nothing that is drawn: two orders of the collected triangles by material give the
same materials, ranges, counters and vertices, and as long as offsets are words, every range draws
the same corners and triangles. -/
theorem tie_order_irrelevant (mesh : Mesh) {first second : List Triangle}
    (hf : mesh.GroupedOrder first) (hs : mesh.GroupedOrder second) :
    Alike (weld mesh first) (weld mesh second) ∧
    ((mesh.distinctPairs mesh.collectedTriangles).length ≤ 2 ^ 29 →
      ∀ range ∈ (weld mesh first).drawRanges,
        DrawAlike (weld mesh first) (weld mesh second) range) := by
  have h := hf.perm.trans hs.perm.symm
  constructor
  · exact alike_of_perm mesh h hf.grouped hs.grouped
  · intro few range hr
    rw [← (mesh.distinctPairs_perm hf.perm).length_eq] at few
    exact drawAlike_of_perm mesh h hf.grouped hs.grouped few (Array.mem_toList_iff.mpr hr)

/-- Two triangles of one material that share no corner. -/
def twins : Mesh where
  positions := #[⟨.zero, .zero, .zero⟩, ⟨.ofInt 1, .zero, .zero⟩]
  attributes := #[{}, { uv := ⟨.ofInt 1, .zero⟩ }]
  cornerPositions := #[0, 0, 0, 1, 1, 1]
  cornerAttributes := #[0, 0, 1, 1, 1, 0]
  triangleMaterials := #[0, 0]
  materials := #[{}]

theorem tie_order_irrelevant_twins :
    twins.GroupedOrder [⟨0, 0⟩, ⟨3, 0⟩] ∧ twins.GroupedOrder [⟨3, 0⟩, ⟨0, 0⟩] ∧
    Alike (weld twins [⟨0, 0⟩, ⟨3, 0⟩]) (weld twins [⟨3, 0⟩, ⟨0, 0⟩]) ∧
    ∀ range ∈ (weld twins [⟨0, 0⟩, ⟨3, 0⟩]).drawRanges,
      DrawAlike (weld twins [⟨0, 0⟩, ⟨3, 0⟩]) (weld twins [⟨3, 0⟩, ⟨0, 0⟩]) range := by
  have collected : twins.collectedTriangles = [⟨0, 0⟩, ⟨3, 0⟩] := by decide +kernel
  have inOrder : twins.GroupedOrder [⟨0, 0⟩, ⟨3, 0⟩] := by
    refine ⟨?_, by decide⟩
    rw [collected]
  have swapped : twins.GroupedOrder [⟨3, 0⟩, ⟨0, 0⟩] := by
    refine ⟨?_, by decide⟩
    rw [collected]
    exact List.Perm.swap _ _ _
  have few : (twins.distinctPairs twins.collectedTriangles).length ≤ 2 ^ 29 := by
    rw [collected]
    decide +kernel
  have h := tie_order_irrelevant twins inOrder swapped
  exact ⟨inOrder, swapped, h.1, h.2 few⟩

end Welder

end RenderMesh
