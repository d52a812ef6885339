import RenderMesh.Proofs.Kept
import RenderMesh.Proofs.Unwelded
import RenderMesh.Proofs.Welder.Counts

/-!
# The report of packing

Every counter of the report is a count over the input: materials that repeat an earlier one,
triangles without a material, and corners of the kept triangles. Sorting only changes the order in
which corners are counted, and a pair of indices is counted once however it comes up.
-/

namespace RenderMesh

namespace Mesh

/-- Whether the material index of triangle `t` is in range of the materials. -/
def keeps (mesh : Mesh) (t : Nat) : Bool :=
  mesh.triangleMaterials[t]?.any fun index => index.toNat < mesh.materials.size

/-- The places of the corners of the kept triangles. -/
def keptPlaces (mesh : Mesh) : List Nat :=
  ((List.range mesh.triangleCount).filter mesh.keeps).flatMap Triangle.placesOf

/-- The readable corners of the kept triangles. -/
def keptCorners (mesh : Mesh) : List Corner := mesh.keptPlaces.filterMap mesh.corner?

/-- A report that says what there was to repair in a mesh, counted over its input. -/
structure Reported (mesh : Mesh) (report : PackReport) : Prop where
  merged : report.mergedMaterials =
    (List.range mesh.materials.size).countP (Material.repeatsAt mesh.materials.toList)
  dropped : report.droppedTriangles =
    (List.range mesh.triangleCount).countP fun t => !mesh.keeps t
  skipped : report.skippedCorners = mesh.keptPlaces.countP (mesh.cornerCount ≤ ·)
  readable : mesh.keptCorners.length = mesh.keptPlaces.countP (· < mesh.cornerCount)
  corrected : report.correctedAttributes = mesh.keptCorners.countP fun corner =>
    mesh.attributes.size ≤ corner.attributeIndex.toNat
  fallback : report.fallbackCorners = mesh.keptCorners.countP fun corner =>
    mesh.positions.size ≤ corner.positionIndex.toNat ∨
      (mesh.attributes.size ≤ corner.attributeIndex.toNat ∧
        mesh.attributes.size ≤ (Corner.shifted corner.attributeIndex).toNat)
  welded : report.weldedCorners +
    (mesh.keptCorners.map fun corner => (mesh.resolve corner).corner).eraseDups.length =
      mesh.keptCorners.length

variable {mesh : Mesh}

theorem keeps_eq (hm : mesh.materials.size ≤ MaterialTable.capacity) (t : Nat) :
    mesh.keeps t = (mesh.materialAt? t).isSome := by
  have hsize : mesh.materialTable.remap.size = mesh.materials.size :=
    (MaterialTable.represents_ofMaterials hm).remap_size
  unfold keeps materialAt?
  cases mesh.triangleMaterials[t]? with
  | none => rfl
  | some index =>
    rw [Bool.eq_iff_iff]
    simp [MaterialTable.get?, hsize]

theorem lt_reach (ht : mesh.triangleCount ≤ 1431655766) {t : Nat}
    (h : t ∈ List.range mesh.triangleCount) : 3 * t < UInt32.size := by
  -- `3 * 1431655765` is the greatest word, so every base corner is one.
  have hlt := List.mem_range.mp h
  simp only [UInt32.size]
  omega

theorem collectedTriangles_eq_map (hm : mesh.materials.size ≤ MaterialTable.capacity)
    (ht : mesh.triangleCount ≤ 1431655766) :
    mesh.collectedTriangles = ((List.range mesh.triangleCount).filter mesh.keeps).map
      fun t => ⟨(3 * t).toUInt32, (mesh.materialAt? t).getD 0⟩ := by
  rw [collectedTriangles_eq, ← List.filterMap_eq_map, List.filterMap_filter]
  apply List.filterMap_congr
  intro t hr
  rw [if_pos (lt_reach ht hr), keeps_eq hm]
  cases h : mesh.materialAt? t <;> simp [h]

theorem length_sortedTriangles (hm : mesh.materials.size ≤ MaterialTable.capacity)
    (ht : mesh.triangleCount ≤ 1431655766) :
    mesh.sortedTriangles.length = (List.range mesh.triangleCount).countP mesh.keeps := by
  rw [mesh.groupedOrder_sortedTriangles.perm.length_eq, collectedTriangles_eq_map hm ht,
    List.length_map, List.countP_eq_length_filter]

theorem places_sortedTriangles_perm (hm : mesh.materials.size ≤ MaterialTable.capacity)
    (ht : mesh.triangleCount ≤ 1431655766) :
    (mesh.sortedTriangles.flatMap Triangle.places).Perm mesh.keptPlaces := by
  have hcollected : mesh.collectedTriangles.flatMap Triangle.places = mesh.keptPlaces := by
    rw [collectedTriangles_eq_map hm ht, List.flatMap_map, keptPlaces]
    apply List.flatMap_congr
    intro t hk
    exact Triangle.places_of_lt (lt_reach ht (List.mem_of_mem_filter hk)) _
  rw [← hcollected]
  exact mesh.groupedOrder_sortedTriangles.perm.flatMap_right _

theorem length_keptCorners (mesh : Mesh) :
    mesh.keptCorners.length = mesh.keptPlaces.countP (· < mesh.cornerCount) := by
  rw [keptCorners, List.length_filterMap_eq_countP]
  apply List.countP_congr
  intro place _
  rw [Option.isSome_iff_ne_none, ne_eq, corner?_eq_none_iff, Nat.not_le, decide_eq_true_eq]

theorem reported_report (h : mesh.isPackable = true)
    (hm : mesh.materials.size ≤ MaterialTable.capacity) (ht : mesh.triangleCount ≤ 1431655766) :
    mesh.Reported mesh.report := by
  have hplaces := places_sortedTriangles_perm hm ht
  have hseen := Welder.seen_weld mesh mesh.sortedTriangles
  have hpairs : (mesh.pairs mesh.sortedTriangles).Perm (mesh.pairsAt mesh.keptPlaces) :=
    hplaces.filterMap _
  rw [report_of_isPackable h]
  refine ⟨?_, ?_, ?_, mesh.length_keptCorners, ?_, ?_, ?_⟩
  · exact MaterialTable.mergedCount_ofMaterials hm
  · have hkept := length_sortedTriangles hm ht
    have htotal := List.length_eq_countP_add_countP mesh.keeps
      (l := List.range mesh.triangleCount)
    simp only [Bool.not_eq_true, Bool.decide_eq_false, List.length_range] at htotal
    simp only
    omega
  · simp only [hseen.skipped, hplaces.countP_eq]
    apply List.countP_congr
    intro place _
    rw [unreadable_eq]
  · simp only [hseen.corrected, hplaces.countP_eq, countP_shiftedAt]
    rfl
  · simp only [hseen.fallback, hplaces.countP_eq, countP_fallbackAt]
    rfl
  · have hwelded := hseen.welded
    have hcount := hpairs.length_eq
    have hdistinct := (FirstAppearance.perm_eraseDups hpairs).length_eq
    rw [pairsAt_eq_map, List.length_map] at hcount
    rw [pairsAt_eq_map] at hdistinct
    unfold pairs at hcount hdistinct
    unfold keptCorners
    simp only
    omega

theorem vertexCount_pack (h : mesh.isPackable = true) :
    mesh.pack.vertexCount = (mesh.distinctPairs mesh.sortedTriangles).length := by
  have hsize := Welder.weld_vertices_size mesh mesh.sortedTriangles
  rw [pack_of_isPackable h, PackedMesh.vertexCount, Vertex.stride]
  simp only
  omega

theorem triangleCount_pack (h : mesh.isPackable = true) :
    mesh.pack.triangleCount = mesh.sortedTriangles.length := by
  rw [pack_of_isPackable h, PackedMesh.triangleCount]
  exact Welder.weld_materialIds_size mesh mesh.sortedTriangles

/-- The report is exact, and its counters account for every corner and every triangle. -/
theorem report_accounts (mesh : Mesh) (corners : 0 < mesh.cornerCount)
    (materials : 0 < mesh.materials.size) (fewMaterials : mesh.materials.size ≤ 2 ^ 32 - 1)
    (fewTriangles : mesh.triangleCount ≤ 1431655766) :
    mesh.Reported mesh.report ∧
    mesh.report.weldedCorners + mesh.pack.vertexCount = mesh.pack.indices.size ∧
    mesh.pack.indices.size + mesh.report.skippedCorners = 3 * mesh.pack.triangleCount ∧
    mesh.pack.triangleCount + mesh.report.droppedTriangles = mesh.triangleCount := by
  have h := isPackable_of_pos corners materials
  have hm : mesh.materials.size ≤ MaterialTable.capacity := by
    simp only [MaterialTable.capacity, UInt32.size]
    omega
  have hdropped := mesh.length_sortedTriangles_le
  refine ⟨reported_report h hm fewTriangles, ?_, ?_, ?_⟩
  · rw [vertexCount_pack h, report_of_isPackable h, pack_of_isPackable h]
    exact Welder.weld_welded_add_vertices mesh mesh.sortedTriangles
  · rw [triangleCount_pack h, report_of_isPackable h, pack_of_isPackable h]
    exact Welder.weld_indices_add_skipped mesh mesh.sortedTriangles
  · rw [triangleCount_pack h, report_of_isPackable h]
    simp only
    omega

/-- A frayed mesh whose material comes twice. -/
def worn : Mesh := { frayed with materials := #[{}, { name := "copy" }] }

/-- What there is to repair in the worn mesh. -/
def wornReport : PackReport where
  mergedMaterials := 1
  droppedTriangles := 1
  skippedCorners := 1
  correctedAttributes := 1
  fallbackCorners := 1
  weldedCorners := 3

theorem report_worn : worn.report = wornReport := by
  have reported : worn.Reported worn.report :=
    reported_report (by decide) (by decide) (by decide)
  have welded := reported.welded
  rw [wornReport, PackReport.mk.injEq]
  refine ⟨?_, ?_, ?_, ?_, ?_, ?_⟩
  · rw [reported.merged]
    decide
  · rw [reported.dropped]
    decide
  · rw [reported.skipped]
    decide
  · rw [reported.corrected]
    decide
  · rw [reported.fallback]
    decide
  · exact Nat.add_right_cancel (welded.trans (by decide))

theorem report_accounts_worn :
    0 < worn.cornerCount ∧ 0 < worn.materials.size ∧ worn.materials.size ≤ 2 ^ 32 - 1 ∧
    worn.triangleCount ≤ 1431655766 ∧
    worn.Reported worn.report ∧
    worn.report.weldedCorners + worn.pack.vertexCount = worn.pack.indices.size ∧
    worn.pack.indices.size + worn.report.skippedCorners = 3 * worn.pack.triangleCount ∧
    worn.pack.triangleCount + worn.report.droppedTriangles = worn.triangleCount ∧
    worn.report = wornReport ∧
    worn.pack.vertexCount = 2 ∧ worn.pack.indices.size = 5 ∧ worn.pack.triangleCount = 2 := by
  have corners : 0 < worn.cornerCount := by decide
  have materials : 0 < worn.materials.size := by decide
  have fewMaterials : worn.materials.size ≤ 2 ^ 32 - 1 := by decide
  have fewTriangles : worn.triangleCount ≤ 1431655766 := by decide
  obtain ⟨reported, welded, skipped, dropped⟩ :=
    report_accounts worn corners materials fewMaterials fewTriangles
  have triangles : worn.triangleCount = 3 := rfl
  have counters := report_worn
  refine ⟨corners, materials, fewMaterials, fewTriangles, reported, welded, skipped, dropped,
    counters, ?_⟩
  simp only [counters, wornReport, triangles] at welded skipped dropped
  omega

end Mesh

end RenderMesh
