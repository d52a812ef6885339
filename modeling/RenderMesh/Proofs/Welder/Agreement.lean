import RenderMesh.Proofs.Welder.Counts
import RenderMesh.Proofs.Welder.DrawRanges

/-!
# What a welder depends on

A welder reads a mesh only through the pairs that its corners resolve to and through the vertices of
these pairs. Meshes that agree on them weld to the same buffers, whatever their raw indices are.
-/

namespace RenderMesh

namespace Mesh

/-- Meshes that show a welder the same corners of some triangles. -/
structure Agree (first second : Mesh) (triangles : List Triangle) : Prop where
  pairs : ∀ place, first.pair? place = second.pair? place
  vertices : ∀ pair ∈ first.pairs triangles, first.vertex pair = second.vertex pair

variable {first second : Mesh} {triangles : List Triangle}

theorem Agree.cornerCount (h : Agree first second triangles) :
    first.cornerCount = second.cornerCount := by
  have hread : ∀ place, place < first.cornerCount ↔ place < second.cornerCount := by
    intro place
    have hp := congrArg Option.isSome (h.pairs place)
    rw [isSome_pair?, isSome_pair?, decide_eq_decide] at hp
    exact hp
  have hfirst := hread first.cornerCount
  have hsecond := hread second.cornerCount
  omega

theorem Agree.pairs_eq (h : Agree first second triangles) :
    first.pairs triangles = second.pairs triangles := by
  unfold Mesh.pairs pairsAt
  apply List.filterMap_congr
  intro place _
  exact h.pairs place

theorem Agree.owners_eq (h : Agree first second triangles) :
    first.owners triangles = second.owners triangles := by
  simp only [owners, readable, h.cornerCount]

end Mesh

namespace Welder

/-- Welders with the same buffers and the same corners skipped and welded. -/
structure SameBuffers (first second : Welder) : Prop where
  vertices : first.vertices = second.vertices
  indices : first.indices = second.indices
  materialIds : first.materialIds = second.materialIds
  drawRanges : first.drawRanges = second.drawRanges
  skipped : first.skippedCorners = second.skippedCorners
  welded : first.weldedCorners = second.weldedCorners

variable {first second : Mesh} {triangles : List Triangle}

/-- Pairs that are renamed apart and keep their vertices fill the same buffers. -/
theorem Numbered.renamed {f : Corner → Corner} {pairs : List Corner} {w v : Welder}
    (hfirst : Numbered first pairs w) (hsecond : Numbered second (pairs.map f) v)
    (apart : ∀ p ∈ pairs, ∀ q ∈ pairs, f p = f q → p = q)
    (vertices : ∀ pair ∈ pairs, first.vertex pair = second.vertex (f pair)) :
    w.vertices = v.vertices ∧ w.indices = v.indices ∧ w.weldedCorners = v.weldedCorners := by
  refine ⟨?_, ?_, ?_⟩
  · apply Array.toList_inj.mp
    rw [hfirst.vertices, hsecond.vertices, FirstAppearance.eraseDups_map apart, List.flatMap_map]
    apply List.flatMap_congr
    intro pair hp
    rw [vertices pair (List.mem_eraseDups.mp hp)]
  · apply Array.toList_inj.mp
    rw [hfirst.indices, hsecond.indices, List.map_map]
    apply List.map_congr_left
    intro pair hp
    rw [Function.comp, FirstAppearance.idxOf_eraseDups_map apart hp]
  · have hw := hfirst.welded
    have hv := hsecond.welded
    rw [FirstAppearance.eraseDups_map apart, List.length_map, List.length_map] at hv
    omega

theorem sameBuffers_of_agree (h : Mesh.Agree first second triangles) :
    SameBuffers (weld first triangles) (weld second triangles) := by
  have hseen := seen_weld first triangles
  have hagain := seen_weld second triangles
  have hsecond := numbered_weld second triangles
  rw [← h.pairs_eq, ← List.map_id (first.pairs triangles)] at hsecond
  obtain ⟨hvertices, hindices, hwelded⟩ :=
    (numbered_weld first triangles).renamed hsecond (fun _ _ _ _ he => he) h.vertices
  constructor
  · exact hvertices
  · exact hindices
  · apply Array.toList_inj.mp
    rw [weld_materialIds, weld_materialIds]
  · rw [weld_drawRanges, weld_drawRanges, h.owners_eq]
  · rw [hseen.skipped, hagain.skipped]
    apply List.countP_congr
    intro place _
    rw [Mesh.unreadable_eq, Mesh.unreadable_eq, h.cornerCount]
  · exact hwelded

end Welder

end RenderMesh
