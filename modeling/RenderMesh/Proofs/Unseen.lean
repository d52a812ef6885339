import RenderMesh.Proofs.Report
import RenderMesh.Proofs.Welder.Agreement

/-!
# What packing does not see

Names of materials, light, and positions and attributes that no kept corner selects have no part in
packing. Two meshes that differ in nothing else pack to the same buffers with the same report, and
their tables keep the materials of the same places.
-/

namespace RenderMesh

/-- A material without its name. -/
def Material.nameless (material : Material) : Material := { material with name := "" }

/-- An attribute without its light. -/
def VertexAttribute.lightless (shading : VertexAttribute) : VertexAttribute :=
  { shading with light := 0 }

theorem Material.similar_of_nameless {a b a' b' : Material} (ha : a.nameless = a'.nameless)
    (hb : b.nameless = b'.nameless) : a.similar b = a'.similar b' := by
  have hnames : ∀ c d : Material, c.similar d = c.nameless.similar d.nameless := fun _ _ => rfl
  rw [hnames, ha, hb, ← hnames]

/-! ### Tables of related materials -/

namespace MaterialTable

variable {R : Material → Material → Prop} {first second : MaterialTable} {a b : Material}

/-- Tables of materials that are related place by place. -/
structure Related (R : Material → Material → Prop) (first second : MaterialTable) : Prop where
  materials : List.Forall₂ R first.materials.toList second.materials.toList
  remap : first.remap = second.remap

theorem Related.size (h : Related R first second) :
    first.materials.size = second.materials.size := by
  have hlength := h.materials.length_eq
  rw [Array.length_toList, Array.length_toList] at hlength
  exact hlength

theorem findIdx?_of_related {as bs : List Material} (h : List.Forall₂ R as bs)
    {p q : Material → Bool} (hpq : ∀ a b, R a b → p a = q b) : as.findIdx? p = bs.findIdx? q := by
  induction h with
  | nil => rfl
  | cons hab _ ih => rw [List.findIdx?_cons, List.findIdx?_cons, hpq _ _ hab, ih]

variable (nameless : ∀ a b, R a b → a.nameless = b.nameless)

include nameless

theorem Related.findIdx? (h : Related R first second) (hab : R a b) :
    (first.materials.findIdx? fun kept => kept.similar a) =
      second.materials.findIdx? fun kept => kept.similar b := by
  have hlists := findIdx?_of_related h.materials (p := fun kept => kept.similar a)
    (q := fun kept => kept.similar b) fun c d hcd =>
      Material.similar_of_nameless (nameless c d hcd) (nameless a b hab)
  rw [← List.findIdx?_toArray, ← List.findIdx?_toArray] at hlists
  exact hlists

/-- Related materials find the same place, or both none. -/
theorem Related.insert? (h : Related R first second) (hab : R a b) :
    Option.Rel (Related R) (first.insert? a) (second.insert? b) := by
  have hfind := h.findIdx? nameless hab
  cases hplace : second.materials.findIdx? fun kept => kept.similar b with
  | some place =>
    rw [insert?_of_similar hplace, insert?_of_similar (hfind.trans hplace), h.remap]
    exact .some ⟨h.materials, rfl⟩
  | none =>
    by_cases room : second.materials.size < capacity
    · rw [insert?_of_new hplace room, insert?_of_new (hfind.trans hplace) (h.size ▸ room), h.remap,
        h.size]
      refine .some ⟨?_, rfl⟩
      rw [Array.toList_push, Array.toList_push]
      exact List.rel_append h.materials (.cons hab .nil)
    · rw [insert?_of_full hplace room, insert?_of_full (hfind.trans hplace) (h.size ▸ room)]
      exact .none

theorem Related.extend (h : Related R first second) {as bs : List Material}
    (hgiven : List.Forall₂ R as bs) : Related R (first.extend as) (second.extend bs) := by
  induction hgiven generalizing first second with
  | nil => exact h
  | @cons a b as bs hab _ ih =>
    have hstep := h.insert? nameless hab
    rw [MaterialTable.extend, MaterialTable.extend]
    cases hfirst : first.insert? a <;> cases hsecond : second.insert? b <;>
      rw [hfirst, hsecond] at hstep
    · exact h
    · cases hstep
    · cases hstep
    · obtain ⟨hnext⟩ := hstep
      exact ih hnext

end MaterialTable

namespace Mesh

/-! ### Meshes that look alike -/

/-- Meshes that differ at most in the names of materials, in light, and in positions and attributes
that no readable corner of a triangle with a valid material selects. -/
structure LooksAlike (first second : Mesh) : Prop where
  cornerPositions : first.cornerPositions = second.cornerPositions
  cornerAttributes : first.cornerAttributes = second.cornerAttributes
  triangleMaterials : first.triangleMaterials = second.triangleMaterials
  positionCount : first.positions.size = second.positions.size
  attributeCount : first.attributes.size = second.attributes.size
  materials : first.materials.map Material.nameless = second.materials.map Material.nameless
  positions : ∀ corner ∈ first.keptCorners,
    let place := (first.resolve corner).corner.positionIndex.toNat
    first.positions[place]? = second.positions[place]?
  attributes : ∀ corner ∈ first.keptCorners,
    let place := (first.resolve corner).corner.attributeIndex.toNat
    first.attributes[place]?.map VertexAttribute.lightless =
      second.attributes[place]?.map VertexAttribute.lightless

/-- Materials that stand at one place of two meshes. -/
def StandTogether (first second : Mesh) (a b : Material) : Prop :=
  ∃ place : Nat, first.materials[place]? = some a ∧ second.materials[place]? = some b

/-- Meshes that pack to the same buffers with the same report, and to tables of the same places
whose materials differ in nothing but their names. -/
structure PackedUnseen (first second : Mesh) : Prop where
  vertices : first.pack.vertices = second.pack.vertices
  indices : first.pack.indices = second.pack.indices
  materialIds : first.pack.materialIds = second.pack.materialIds
  drawRanges : first.pack.drawRanges = second.pack.drawRanges
  report : first.report = second.report
  materials :
    first.pack.materials.map Material.nameless = second.pack.materials.map Material.nameless
  places : List.Forall₂ (StandTogether first second) first.pack.materials.toList
    second.pack.materials.toList

variable {first second : Mesh}

namespace LooksAlike

theorem corner?_eq (h : LooksAlike first second) (place : Nat) :
    first.corner? place = second.corner? place := by
  rw [corner?, corner?, h.cornerPositions, h.cornerAttributes]

theorem resolve_eq (h : LooksAlike first second) (corner : Corner) :
    first.resolve corner = second.resolve corner := by
  rw [resolve, resolve, h.positionCount, h.attributeCount]

theorem size_materials (h : LooksAlike first second) :
    first.materials.size = second.materials.size := by
  have hsize := congrArg Array.size h.materials
  rw [Array.size_map, Array.size_map] at hsize
  exact hsize

theorem isPackable_eq (h : LooksAlike first second) : first.isPackable = second.isPackable := by
  rw [Bool.eq_iff_iff, isPackable_iff, isPackable_iff, cornerCount, cornerCount,
    h.cornerPositions, h.cornerAttributes, h.size_materials]

theorem nameless_of_standTogether (h : LooksAlike first second) (a b : Material)
    (hab : StandTogether first second a b) : a.nameless = b.nameless := by
  obtain ⟨place, ha, hb⟩ := hab
  have hplace := congrArg (fun materials => materials[place]?) h.materials
  simp only [Array.getElem?_map, ha, hb, Option.map_some] at hplace
  exact Option.some.inj hplace

theorem standTogether_materials (h : LooksAlike first second) :
    List.Forall₂ (StandTogether first second) first.materials.toList second.materials.toList := by
  refine List.forall₂_iff_get.mpr ⟨h.size_materials, fun place hfirst hsecond => ?_⟩
  exact ⟨place, Array.getElem?_eq_getElem hfirst, Array.getElem?_eq_getElem hsecond⟩

theorem related_materialTable (h : LooksAlike first second) :
    MaterialTable.Related (StandTogether first second) first.materialTable second.materialTable :=
  MaterialTable.Related.extend h.nameless_of_standTogether ⟨.nil, rfl⟩ h.standTogether_materials

theorem sortedTriangles_eq (h : LooksAlike first second) :
    first.sortedTriangles = second.sortedTriangles := by
  rw [sortedTriangles, sortedTriangles, h.triangleMaterials, h.related_materialTable.remap]

end LooksAlike

/-! ### Corners that are welded -/

theorem keeps_of_materialAt? {mesh : Mesh} {t : Nat} {material : UInt32}
    (h : mesh.materialAt? t = some material) : mesh.keeps t = true := by
  obtain ⟨index, hindex, hplace⟩ := Option.bind_eq_some_iff.mp h
  obtain ⟨taken, hprefix, hr, _⟩ := MaterialTable.ofMaterials_cases mesh.materials
  have htaken : mesh.materialTable.remap.size ≤ mesh.materials.size := by
    have hsize : mesh.materials.toList.length = mesh.materials.size := Array.length_toList
    rw [← hsize]
    exact hr.remap_size ▸ hprefix.length_le
  obtain ⟨hlt, _⟩ := Array.getElem?_eq_some_iff.mp hplace
  rw [keeps, hindex]
  exact decide_eq_true (Nat.lt_of_lt_of_le hlt htaken)

/-- The triangles that are welded are among those with a valid material. -/
theorem mem_keptPlaces {mesh : Mesh} {place : Nat}
    (h : place ∈ mesh.sortedTriangles.flatMap Triangle.places) : place ∈ mesh.keptPlaces := by
  obtain ⟨triangle, hsorted, hplace⟩ := List.mem_flatMap.mp h
  have hcollected := mesh.groupedOrder_sortedTriangles.perm.mem_iff.mp hsorted
  rw [collectedTriangles_eq] at hcollected
  obtain ⟨t, ht, hkept⟩ := List.mem_filterMap.mp hcollected
  obtain ⟨hreach, hmaterial⟩ := Option.ite_none_right_eq_some.mp hkept
  obtain ⟨material, hm, rfl⟩ := Option.map_eq_some_iff.mp hmaterial
  rw [Triangle.places_of_lt hreach] at hplace
  exact List.mem_flatMap.mpr ⟨t, List.mem_filter.mpr ⟨ht, keeps_of_materialAt? hm⟩, hplace⟩

theorem exists_corner_of_mem_pairs {mesh : Mesh} {pair : Corner}
    (h : pair ∈ mesh.pairs mesh.sortedTriangles) :
    ∃ corner ∈ mesh.keptCorners, (mesh.resolve corner).corner = pair := by
  obtain ⟨place, hplace, hpair⟩ := List.mem_filterMap.mp h
  obtain ⟨corner, hcorner, hresolved⟩ := Option.map_eq_some_iff.mp hpair
  exact ⟨corner, List.mem_filterMap.mpr ⟨place, mem_keptPlaces hplace, hcorner⟩, hresolved⟩

theorem ofAttribute_getD (position : Vec3) (shading : Option VertexAttribute) :
    Vertex.ofAttribute position (shading.getD default) =
      Vertex.ofAttribute position ((shading.map VertexAttribute.lightless).getD default) := by
  cases shading <;> rfl

theorem LooksAlike.vertex_eq (h : LooksAlike first second) {pair : Corner}
    (hp : pair ∈ first.pairs first.sortedTriangles) : first.vertex pair = second.vertex pair := by
  obtain ⟨corner, hc, rfl⟩ := exists_corner_of_mem_pairs hp
  have hposition := h.positions corner hc
  have hattribute := h.attributes corner hc
  simp only at hposition hattribute
  rw [vertex, vertex, ofAttribute_getD, hattribute, ← ofAttribute_getD, hposition]

theorem LooksAlike.agree (h : LooksAlike first second) :
    Agree first second first.sortedTriangles where
  pairs place := by
    rw [pair?, pair?, h.corner?_eq, funext h.resolve_eq]
  vertices _ hp := h.vertex_eq hp

/-- Corners are repaired alike. -/
theorem LooksAlike.repairs_eq (h : LooksAlike first second) (triangles : List Triangle) :
    (Welder.weld first triangles).correctedAttributes =
        (Welder.weld second triangles).correctedAttributes ∧
      (Welder.weld first triangles).fallbackCorners =
        (Welder.weld second triangles).fallbackCorners := by
  have hshifted : first.shiftedAt = second.shiftedAt := by
    funext place
    rw [shiftedAt, shiftedAt, h.corner?_eq, funext h.resolve_eq]
  have hfallback : first.fallbackAt = second.fallbackAt := by
    funext place
    rw [fallbackAt, fallbackAt, h.corner?_eq, funext h.resolve_eq]
  have hseen := Welder.seen_weld first triangles
  have hagain := Welder.seen_weld second triangles
  rw [hseen.corrected, hagain.corrected, hseen.fallback, hagain.fallback, hshifted, hfallback]
  exact ⟨rfl, rfl⟩

/-! ### Packing -/

theorem LooksAlike.packedUnseen_of_isPackable (h : LooksAlike first second)
    (packable : first.isPackable = true) : PackedUnseen first second := by
  have hagain : second.isPackable = true := h.isPackable_eq ▸ packable
  have hsame := Welder.sameBuffers_of_agree h.agree
  have htable := h.related_materialTable
  obtain ⟨hcorrected, hfallback⟩ := h.repairs_eq first.sortedTriangles
  have hmaterials : first.materialTable.materials.map Material.nameless =
      second.materialTable.materials.map Material.nameless := by
    apply Array.toList_inj.mp
    rw [Array.toList_map, Array.toList_map, ← List.forall₂_eq_eq_eq, List.forall₂_map_left_iff,
      List.forall₂_map_right_iff]
    exact htable.materials.imp h.nameless_of_standTogether
  have hmerged : first.materialTable.mergedCount = second.materialTable.mergedCount := by
    rw [MaterialTable.mergedCount, MaterialTable.mergedCount, htable.remap, htable.size]
  have htriangles : first.triangleCount = second.triangleCount :=
    congrArg Array.size h.triangleMaterials
  constructor
  all_goals simp only [pack_of_isPackable packable, pack_of_isPackable hagain,
    report_of_isPackable packable, report_of_isPackable hagain, ← h.sortedTriangles_eq]
  · exact hsame.vertices
  · exact hsame.indices
  · exact hsame.materialIds
  · exact hsame.drawRanges
  · rw [hmerged, htriangles, hsame.skipped, hcorrected, hfallback, hsame.welded]
  · exact hmaterials
  · exact htable.materials

/-- What packing does not see changes nothing but the names in the table. -/
theorem packedUnseen_of_looksAlike (first second : Mesh) (alike : LooksAlike first second) :
    PackedUnseen first second := by
  by_cases packable : first.isPackable = true
  · exact alike.packedUnseen_of_isPackable packable
  · have hagain : ¬second.isPackable = true := alike.isPackable_eq ▸ packable
    constructor <;> simp only [pack_of_not_isPackable packable, pack_of_not_isPackable hagain,
      report_of_not_isPackable packable, report_of_not_isPackable hagain]
    exact .nil

/-- A mesh of one triangle with a shifted attribute index and a position that nothing selects, and
two similar materials. -/
def veiled (light : UInt32) (hidden : Vec3) (names : String × String) : Mesh where
  positions := #[⟨.zero, .zero, .zero⟩, hidden, ⟨.ofInt 1, .zero, .zero⟩]
  attributes := #[{}, { uv := ⟨.ofInt 1, .zero⟩, light }]
  cornerPositions := #[0, 2, 7, 1]
  cornerAttributes := #[0, 65536, 0, 1]
  triangleMaterials := #[1, 2]
  materials := #[{ name := names.1 }, { name := names.2 }]

theorem packedUnseen_of_looksAlike_veiled :
    LooksAlike (veiled 1 ⟨.zero, .zero, .zero⟩ ("a", "b")) (veiled 2 ⟨.nan, .nan, .nan⟩ ("c", "")) ∧
    PackedUnseen (veiled 1 ⟨.zero, .zero, .zero⟩ ("a", "b"))
      (veiled 2 ⟨.nan, .nan, .nan⟩ ("c", "")) := by
  have alike : LooksAlike (veiled 1 ⟨.zero, .zero, .zero⟩ ("a", "b"))
      (veiled 2 ⟨.nan, .nan, .nan⟩ ("c", "")) := by
    refine ⟨rfl, rfl, rfl, rfl, rfl, ?_, ?_, ?_⟩
    all_goals decide +kernel
  exact ⟨alike, packedUnseen_of_looksAlike _ _ alike⟩

end Mesh

end RenderMesh
