import RenderMesh.Proofs.File.Exchange
import RenderMesh.Proofs.Packed.Agreement
import RenderMesh.Proofs.Packed.Sizes

/-!
# Golden files

A packed mesh is saved as a reference and compared with it later. Text and reading give everything
back but the numbers of the vertices, so the comparison is decided by what becomes of these.
-/

namespace RenderMesh

open Json (Number Value)

/-! ### Numbers of the vertices -/

theorem Single.reproduces_iff_of_same {x : Single} {tolerance : Double}
    (same : x.isFinite = true → (Number.double x.widen).reread = .ok (.double x.widen)) :
    x.Reproduces tolerance ↔
      x.isFinite = true ∧ (tolerance.isNaN = true ∨ 0 ≤ tolerance.key) := by
  rw [Reproduces, ← Binary.less_zero_eq_false_iff]
  refine and_congr_right fun hx => ?_
  rw [same hx]
  constructor
  · rintro ⟨y, hy, hnear⟩
    cases hy
    rwa [Binary.distance_self (isFinite_widen hx)] at hnear
  · intro hnear
    refine ⟨_, rfl, ?_⟩
    rwa [Binary.distance_self (isFinite_widen hx)]

/-- Every number of the vertices stands in a position or an attribute of the mesh, or in one that
stands in for them. -/
theorem Mesh.exists_of_mem_vertices (mesh : Mesh) {x : Single} (h : x ∈ mesh.pack.vertices) :
    ∃ position ∈ default :: mesh.positions.toList,
      ∃ shading ∈ default :: mesh.attributes.toList,
        x ∈ (Vertex.ofAttribute position shading).floats := by
  by_cases hp : mesh.isPackable = true
  · have hvertices := (Welder.numbered_weld mesh mesh.sortedTriangles).vertices
    rw [pack_of_isPackable hp, ← Array.mem_toList_iff, hvertices] at h
    obtain ⟨pair, _, hx⟩ := List.mem_flatMap.mp h
    refine ⟨_, ?_, _, ?_, hx⟩
    · cases hget : mesh.positions[pair.positionIndex.toNat]? with
      | none => exact List.mem_cons_self
      | some position =>
        exact List.mem_cons_of_mem _ (Array.mem_toList_iff.mpr (Array.mem_of_getElem? hget))
    · cases hget : mesh.attributes[pair.attributeIndex.toNat]? with
      | none => exact List.mem_cons_self
      | some shading =>
        exact List.mem_cons_of_mem _ (Array.mem_toList_iff.mpr (Array.mem_of_getElem? hget))
  · rw [pack_of_not_isPackable hp] at h
    exact absurd h (Array.not_mem_empty x)

/-! ### The way of a golden file -/

namespace Exchange

/-- A fixture is packed and saved as a reference, with its report or without, and what it packs to
is compared with the reference as it is read. -/
def goldenFile (text path : String) (reported : Bool) (tolerance : Double) : Exchange Unit := do
  let fixture ← ofExcept .json (Fixture.parse text)
  let (packed, counted) ← pack fixture.mesh
  saveSummary path packed (if reported then some counted else none)
  let reference ← loadSummary path
  compare (fixture.mesh.pack.summary none) reference tolerance

variable {σ : Type} [Files σ] [LawfulFiles σ] {store changed : σ} {text path : String}
  {fixture : Fixture} {reported : Bool}

/-- A golden file comes to the comparison of a summary with what its text is read as. -/
theorem ends_goldenFile (tolerance : Double) (parsed : Fixture.parse text = .ok fixture)
    (written : Files.write store path (fixture.summary reported).pretty = .ok changed)
    (materials : fixture.mesh.materials.size < UInt64.size)
    (triangles : fixture.mesh.triangleCount < UInt64.size) :
    ((goldenFile text path reported tolerance).ends store).1 =
      (Compare.run (fixture.mesh.pack.summary none)
        ((fixture.summary reported).map Number.readBack) tolerance).mapError .mismatch := by
  have hparsed : (ofExcept .json (Fixture.parse text)).ends store = (.ok fixture, store) := by
    rw [ends_ofExcept, parsed]
    rfl
  have hreports : ∀ r ∈ if reported then some fixture.mesh.report else none, r.Sized := by
    intro r hr
    cases reported with
    | false => exact nomatch hr
    | true =>
      cases hr
      exact fixture.mesh.sized_report materials triangles
  have hloaded := ends_loadSummary_of_write written
    (fixture.mesh.sized_pack.readable_summary hreports) (by decide)
  rw [goldenFile, ends_bind hparsed, ends_bind (ends_pack _ _)]
  dsimp only
  rw [ends_bind (ends_saveSummary written), ends_bind hloaded, ends_compare]

/-- A golden file is accepted exactly when every vertex number is finite and within the tolerance of
what its text is read as. Where that is the number again, it is accepted when there are no vertices,
or when all are finite and the tolerance is NaN or not below zero. -/
theorem goldenFile_accepts_iff (tolerance : Double) (parsed : Fixture.parse text = .ok fixture)
    (written : Files.write store path (fixture.summary reported).pretty = .ok changed)
    (materials : fixture.mesh.materials.size < UInt64.size)
    (triangles : fixture.mesh.triangleCount < UInt64.size) :
    (((goldenFile text path reported tolerance).ends store).1 = .ok () ↔
      ∀ x ∈ fixture.mesh.pack.vertices, x.Reproduces tolerance) ∧
    ((∀ x ∈ fixture.mesh.pack.vertices, x.isFinite = true →
        (Number.double x.widen).reread = .ok (.double x.widen)) →
      (((goldenFile text path reported tolerance).ends store).1 = .ok () ↔
        fixture.mesh.pack.vertices = #[] ∨
          (∀ x ∈ fixture.mesh.pack.vertices, x.isFinite = true) ∧
            (tolerance.isNaN = true ∨ 0 ≤ tolerance.key))) := by
  have hreproduces : ((goldenFile text path reported tolerance).ends store).1 = .ok () ↔
      ∀ x ∈ fixture.mesh.pack.vertices, x.Reproduces tolerance := by
    rw [ends_goldenFile tolerance parsed written materials triangles, ← Compare.isOk_iff,
      Compare.isOk_mapError, Fixture.summary,
      PackedMesh.isOk_run_reread fixture.mesh.count_pack_le]
  refine ⟨hreproduces, fun same => hreproduces.trans ?_⟩
  have htolerance : (∀ x ∈ fixture.mesh.pack.vertices, x.Reproduces tolerance) ↔
      ∀ x ∈ fixture.mesh.pack.vertices,
        x.isFinite = true ∧ (tolerance.isNaN = true ∨ 0 ≤ tolerance.key) :=
    forall₂_congr fun x hx => Single.reproduces_iff_of_same (same x hx)
  rw [htolerance]
  constructor
  · intro hall
    by_cases hempty : fixture.mesh.pack.vertices = #[]
    · exact Or.inl hempty
    · obtain ⟨x, hx⟩ := Array.exists_mem_of_ne_empty _ hempty
      exact Or.inr ⟨fun x hx => (hall x hx).1, (hall x hx).2⟩
  · rintro (hempty | ⟨hfinite, hnear⟩) x hx
    · rw [hempty] at hx
      exact absurd hx (Array.not_mem_empty x)
    · exact ⟨hfinite x hx, hnear⟩

/-- A triangle, as the list of the fields of its fixture. -/
def sheetText : String :=
  "[\"sheet\", [[0,0,0],[1,0,0],[0,1,0.5]], [{}], [0,1,2], [0,0,0], [0], [{}]]"

def sheet : Fixture where
  name := "sheet"
  mesh :=
    { positions :=
        #[⟨.zero, .zero, .zero⟩, ⟨.ofInt 1, .zero, .zero⟩, ⟨.zero, .ofInt 1, .nearest false 1 2⟩]
      attributes := #[{}]
      cornerPositions := #[0, 1, 2]
      cornerAttributes := #[0, 0, 0]
      triangleMaterials := #[0]
      materials := #[{}] }

theorem target_sheet : ({} : FileStore).target "sheet.json" = .ok ["sheet.json"] := by
  have hpath : FileStore.pathFault? "sheet.json" = none := by
    have hshort : ¬FileStore.longestPath < "sheet.json".utf8ByteSize := by decide
    simp [FileStore.pathFault?, hshort]
  have hstart : FileStore.start "sheet.json" = .inside [] := by simp [FileStore.start]
  have hnames : FileStore.namesOf "sheet.json" = ["sheet.json"] := by decide +kernel
  have hlong : ¬FileStore.longestName < "sheet.json".utf8ByteSize := by decide
  simp [FileStore.target, FileStore.walk, FileStore.isDirectory, FileStore.isStep,
    FileStore.descend, FileStore.node?, hpath, hstart, hnames, hlong, bind, Except.bind, pure,
    Except.pure]

/-- The sheet agrees with its own reference, report and all, without any tolerance. -/
theorem goldenFile_accepts_sheet :
    Fixture.parse sheetText = .ok sheet ∧
    (∃ changed, Files.write ({} : FileStore) "sheet.json" (sheet.summary true).pretty =
      .ok changed) ∧
    sheet.mesh.materials.size < UInt64.size ∧ sheet.mesh.triangleCount < UInt64.size ∧
    (∀ x ∈ sheet.mesh.pack.vertices, x.isFinite = true →
      (Number.double x.widen).reread = .ok (.double x.widen)) ∧
    ((goldenFile sheetText "sheet.json" true .zero).ends ({} : FileStore)).1 = .ok () := by
  have parsed : Fixture.parse sheetText = .ok sheet := by decide +kernel
  have materials : sheet.mesh.materials.size < UInt64.size := by decide
  have triangles : sheet.mesh.triangleCount < UInt64.size := by decide
  have hnumbers : ∀ position ∈ default :: sheet.mesh.positions.toList,
      ∀ shading ∈ default :: sheet.mesh.attributes.toList,
        ∀ x ∈ (Vertex.ofAttribute position shading).floats, x.isFinite = true ∧
          (Number.double x.widen).reread = .ok (.double x.widen) := by decide +kernel
  have hvertices : ∀ x ∈ sheet.mesh.pack.vertices, x.isFinite = true ∧
      (Number.double x.widen).reread = .ok (.double x.widen) := by
    intro x hx
    obtain ⟨position, hp, shading, hs, hfloats⟩ := sheet.mesh.exists_of_mem_vertices hx
    exact hnumbers position hp shading hs x hfloats
  have same : ∀ x ∈ sheet.mesh.pack.vertices, x.isFinite = true →
      (Number.double x.widen).reread = .ok (.double x.widen) := fun x hx _ => (hvertices x hx).2
  have written := FileStore.write_of_target target_sheet (sheet.summary true).pretty
  refine ⟨parsed, ⟨_, written⟩, materials, triangles, same, ?_⟩
  refine ((goldenFile_accepts_iff .zero parsed written materials triangles).2 same).mpr
    (Or.inr ⟨fun x hx => (hvertices x hx).1, Or.inr ?_⟩)
  decide

end Exchange

end RenderMesh
