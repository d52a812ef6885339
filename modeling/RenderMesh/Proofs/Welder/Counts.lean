import RenderMesh.Proofs.Welder.Numbering

/-!
# Counters of a welder

What the counters of a welder count, in terms of the raw indices of the corners: a corner that is
not skipped is readable, a shifted attribute index is one out of range, and a corner falls back when
its position or its attribute stays out of range.
-/

namespace RenderMesh

namespace Mesh

theorem unreadable_eq (mesh : Mesh) (place : Nat) :
    mesh.unreadable place = decide (mesh.cornerCount ≤ place) := by
  rw [Bool.eq_iff_iff, unreadable, Option.isNone_iff_eq_none, decide_eq_true_eq]
  exact mesh.corner?_eq_none_iff place

theorem readable_add_unreadable (mesh : Mesh) (triangles : List Triangle) :
    mesh.readable triangles + (triangles.flatMap Triangle.places).countP mesh.unreadable =
      3 * triangles.length := by
  have hunreadable : (triangles.flatMap Triangle.places).countP mesh.unreadable =
      (triangles.flatMap Triangle.places).countP
        fun place => ¬decide (place < mesh.cornerCount) = true := by
    apply List.countP_congr
    intro place _
    simp [unreadable_eq]
  have htotal := List.length_eq_countP_add_countP (fun place => decide (place < mesh.cornerCount))
    (l := triangles.flatMap Triangle.places)
  rw [Triangle.length_flatMap_places] at htotal
  rw [hunreadable, readable, ← htotal]

theorem countP_any_corner? (mesh : Mesh) (p : Corner → Bool) (places : List Nat) :
    (places.countP fun place => (mesh.corner? place).any p) =
      (places.filterMap mesh.corner?).countP p := by
  rw [List.countP_filterMap]
  apply List.countP_congr
  intro place _
  cases mesh.corner? place <;> simp

theorem countP_shiftedAt (mesh : Mesh) (places : List Nat) :
    places.countP mesh.shiftedAt = (places.filterMap mesh.corner?).countP fun corner =>
      mesh.attributes.size ≤ corner.attributeIndex.toNat := by
  rw [← countP_any_corner?]
  apply List.countP_congr
  intro place _
  simp only [shiftedAt, resolve, Corner.resolve_corrected]

theorem countP_fallbackAt (mesh : Mesh) (places : List Nat) :
    places.countP mesh.fallbackAt = (places.filterMap mesh.corner?).countP fun corner =>
      mesh.positions.size ≤ corner.positionIndex.toNat ∨
        (mesh.attributes.size ≤ corner.attributeIndex.toNat ∧
          mesh.attributes.size ≤ (Corner.shifted corner.attributeIndex).toNat) := by
  rw [← countP_any_corner?]
  apply List.countP_congr
  intro place _
  simp only [fallbackAt, resolve, beq_iff_eq, Corner.resolution_eq_fallback_iff,
    Option.any_eq_true, decide_eq_true_eq]

theorem pairsAt_eq_map (mesh : Mesh) (places : List Nat) :
    mesh.pairsAt places =
      (places.filterMap mesh.corner?).map fun corner => (mesh.resolve corner).corner := by
  rw [pairsAt, List.map_filterMap]
  rfl

end Mesh

namespace Welder

theorem weld_indices_add_skipped (mesh : Mesh) (triangles : List Triangle) :
    (weld mesh triangles).indices.size + (weld mesh triangles).skippedCorners =
      3 * triangles.length := by
  rw [weld_indices_size, (seen_weld mesh triangles).skipped]
  exact mesh.readable_add_unreadable triangles

theorem weld_welded_add_vertices (mesh : Mesh) (triangles : List Triangle) :
    (weld mesh triangles).weldedCorners + (mesh.distinctPairs triangles).length =
      (weld mesh triangles).indices.size := by
  have h := numbered_weld mesh triangles
  rw [h.indices_size]
  exact h.welded

end Welder

end RenderMesh
