import RenderMesh.Proofs.Unwelded
import RenderMesh.Proofs.Welder.Agreement

/-!
# Repairing a mesh before packing

A repaired mesh holds what its corners resolve to and nothing past the shorter corner stream.
Resolving twice is resolving once, so both meshes show a welder the same corners: packing gives the
same mesh, and the second time there is nothing left to repair.
-/

namespace RenderMesh

namespace Mesh

/-- The pairs that the readable corners of a mesh resolve to. -/
def resolvedCorners (mesh : Mesh) : Array Corner :=
  mesh.cornerPositions.zipWith
    (fun positionIndex attributeIndex => (mesh.resolve ⟨positionIndex, attributeIndex⟩).corner)
    mesh.cornerAttributes

/-- The mesh with resolved corners in both streams. -/
def repaired (mesh : Mesh) : Mesh :=
  { mesh with
    cornerPositions := mesh.resolvedCorners.map Corner.positionIndex
    cornerAttributes := mesh.resolvedCorners.map Corner.attributeIndex }

variable (mesh : Mesh)

@[simp]
theorem repaired_sortedTriangles : mesh.repaired.sortedTriangles = mesh.sortedTriangles := rfl

@[simp]
theorem repaired_materialTable : mesh.repaired.materialTable = mesh.materialTable := rfl

@[simp]
theorem repaired_triangleCount : mesh.repaired.triangleCount = mesh.triangleCount := rfl

@[simp]
theorem size_resolvedCorners : mesh.resolvedCorners.size = mesh.cornerCount :=
  Array.size_zipWith

theorem size_streams_repaired :
    mesh.repaired.cornerPositions.size = mesh.cornerCount ∧
    mesh.repaired.cornerAttributes.size = mesh.cornerCount := by
  simp [repaired]

theorem getElem?_resolvedCorners (place : Nat) :
    mesh.resolvedCorners[place]? = mesh.pair? place := by
  rw [resolvedCorners, Array.getElem?_zipWith, pair?, corner?]
  cases mesh.cornerPositions[place]? with
  | none => rfl
  | some positionIndex =>
    cases mesh.cornerAttributes[place]? with
    | none => rfl
    | some attributeIndex => rfl

theorem corner?_repaired (place : Nat) :
    mesh.repaired.corner? place = mesh.pair? place := by
  rw [← getElem?_resolvedCorners]
  simp only [corner?, repaired, Array.getElem?_map]
  cases mesh.resolvedCorners[place]? <;> rfl

theorem pair?_repaired (place : Nat) :
    mesh.repaired.pair? place = mesh.pair? place := by
  have hresolve : mesh.repaired.resolve = mesh.resolve := rfl
  rw [pair?, corner?_repaired, hresolve, pair?, Option.map_map]
  cases mesh.corner? place with
  | none => rfl
  | some corner => exact congrArg some (corner.resolve_resolved _ _)

theorem agree_repaired (triangles : List Triangle) :
    Agree mesh.repaired mesh triangles :=
  ⟨mesh.pair?_repaired, fun _ _ => rfl⟩

theorem isPackable_repaired : mesh.repaired.isPackable = mesh.isPackable := by
  have hcount := (mesh.agree_repaired []).cornerCount
  have hmaterials : mesh.repaired.materials = mesh.materials := rfl
  rw [isPackable, isPackable, hcount, hmaterials]

/-- Meshes that pack to the same mesh and differ in their reports only by what was repaired. -/
structure PackedAlike (first second : Mesh) : Prop where
  pack : first.pack = second.pack
  merged : first.report.mergedMaterials = second.report.mergedMaterials
  dropped : first.report.droppedTriangles = second.report.droppedTriangles
  skipped : first.report.skippedCorners = second.report.skippedCorners
  welded : first.report.weldedCorners = second.report.weldedCorners

theorem packedAlike_repaired : PackedAlike mesh.repaired mesh := by
  have hpackable := mesh.isPackable_repaired
  by_cases h : mesh.isPackable = true
  · have hagain : mesh.repaired.isPackable = true := hpackable.trans h
    have hsame := Welder.sameBuffers_of_agree (mesh.agree_repaired mesh.sortedTriangles)
    constructor
    · simp only [pack_of_isPackable h, pack_of_isPackable hagain, repaired_sortedTriangles,
        repaired_materialTable, hsame.vertices, hsame.indices, hsame.materialIds, hsame.drawRanges]
    all_goals simp only [report_of_isPackable h, report_of_isPackable hagain,
      repaired_sortedTriangles, repaired_materialTable, repaired_triangleCount]
    · exact hsame.skipped
    · exact hsame.welded
  · have hagain : ¬mesh.repaired.isPackable = true := by
      rw [hpackable]
      exact h
    constructor <;> simp only [pack_of_not_isPackable h, pack_of_not_isPackable hagain,
      report_of_not_isPackable h, report_of_not_isPackable hagain]

variable {mesh}

theorem resolve_of_corner?_repaired (positions : 0 < mesh.positions.size)
    (attributes : 0 < mesh.attributes.size) {place : Nat} {corner : Corner}
    (h : mesh.repaired.corner? place = some corner) :
    mesh.repaired.resolve corner = ⟨corner, .direct, false⟩ := by
  rw [corner?_repaired] at h
  obtain ⟨raw, _, rfl⟩ := Option.map_eq_some_iff.mp h
  exact raw.resolve_resolved_of_pos positions attributes

theorem any_of_direct (direct : ∀ place corner, mesh.corner? place = some corner →
      mesh.resolve corner = ⟨corner, .direct, false⟩)
    (p : ResolvedCorner → Bool) (hp : ∀ corner, p ⟨corner, .direct, false⟩ = false)
    (place : Nat) :
    ((mesh.corner? place).any fun corner => p (mesh.resolve corner)) = false := by
  cases hc : mesh.corner? place with
  | none => rfl
  | some corner =>
    rw [Option.any_some, direct place corner hc]
    exact hp corner

/-- Nothing is repaired where every corner is in range. -/
theorem report_of_direct (direct : ∀ place corner, mesh.corner? place = some corner →
      mesh.resolve corner = ⟨corner, .direct, false⟩) :
    mesh.report.correctedAttributes = 0 ∧ mesh.report.fallbackCorners = 0 := by
  by_cases h : mesh.isPackable = true
  · have hseen := Welder.seen_weld mesh mesh.sortedTriangles
    rw [report_of_isPackable h]
    simp only [hseen.corrected, hseen.fallback, List.countP_eq_zero, Bool.not_eq_true]
    constructor
    · intro place _
      exact any_of_direct direct ResolvedCorner.corrected (fun _ => rfl) place
    · intro place _
      exact any_of_direct direct (fun resolved => resolved.resolution == .fallback)
        (fun _ => rfl) place
  · simp [report_of_not_isPackable h]

theorem nothing_to_repair (positions : 0 < mesh.positions.size)
    (attributes : 0 < mesh.attributes.size) :
    mesh.repaired.report.correctedAttributes = 0 ∧ mesh.repaired.report.fallbackCorners = 0 :=
  report_of_direct fun _ _ hc => resolve_of_corner?_repaired positions attributes hc

/-- Repairing a mesh first cuts both streams to the readable corners and changes nothing of what is
packed. Where there are positions and attributes it leaves nothing to repair. -/
theorem pack_repaired (mesh : Mesh) :
    (mesh.repaired.cornerPositions.size = mesh.cornerCount ∧
      mesh.repaired.cornerAttributes.size = mesh.cornerCount) ∧
    PackedAlike mesh.repaired mesh ∧
    (0 < mesh.positions.size → 0 < mesh.attributes.size →
      mesh.repaired.report.correctedAttributes = 0 ∧
      mesh.repaired.report.fallbackCorners = 0) :=
  ⟨mesh.size_streams_repaired, mesh.packedAlike_repaired, nothing_to_repair⟩

theorem pack_repaired_frayed :
    0 < frayed.positions.size ∧ 0 < frayed.attributes.size ∧
    (frayed.repaired.cornerPositions.size = frayed.cornerCount ∧
      frayed.repaired.cornerAttributes.size = frayed.cornerCount) ∧
    PackedAlike frayed.repaired frayed ∧
    frayed.repaired.report.correctedAttributes = 0 ∧
    frayed.repaired.report.fallbackCorners = 0 ∧
    frayed.repaired.cornerPositions = #[0, 1, 0, 1, 0] ∧
    frayed.repaired.cornerAttributes = #[0, 1, 0, 1, 0] ∧
    frayed.pack.indices = #[0, 8, 0, 8, 0] ∧
    frayed.report.correctedAttributes = 1 ∧ frayed.report.fallbackCorners = 1 := by
  have positions : 0 < frayed.positions.size := by decide
  have attributes : 0 < frayed.attributes.size := by decide
  have packable : frayed.isPackable = true := by decide
  have seen := Welder.seen_weld frayed frayed.sortedTriangles
  obtain ⟨sizes, alike, nothing⟩ := pack_repaired frayed
  obtain ⟨corrected, fallback⟩ := nothing positions attributes
  refine ⟨positions, attributes, sizes, alike, corrected, fallback, ?_, ?_, ?_, ?_, ?_⟩
  · decide +kernel
  · decide +kernel
  · rw [pack_of_isPackable packable, ← Array.toList_inj, Welder.weld_indices,
      sortedTriangles_frayed]
    decide +kernel
  · rw [report_of_isPackable packable, seen.corrected, sortedTriangles_frayed]
    decide +kernel
  · rw [report_of_isPackable packable, seen.fallback, sortedTriangles_frayed]
    decide +kernel

end Mesh

end RenderMesh
