import RenderMesh.Compare
import RenderMesh.Packed.Json
import RenderMesh.Proofs.Mesh.Json

/-!
# Packed meshes as values

A packed mesh whose ranges are of 64 bits comes back from its text, bit for bit, if all of its
numbers are finite. Its summary is a value that reading can give as soon as its counts are of 64
bits too; its counts and the lists of its mesh stand under their names, whatever else is beside
them.
-/

namespace RenderMesh

open Json (Document Number Value)
open Json.Codec (restores_array restores_count restores_single restores_word)
open Json.RecordField (restores_of commutes_of)
open Json.Value (Readable Shaped)

variable {kind : Number → Prop}

/-! ### Draw ranges -/

namespace DrawRange

theorem independent : record.Independent :=
  ⟨by decide, by simp [record, commutes_of]⟩

variable {range : DrawRange} (hf : range.firstIndex < UInt64.size)
  (hc : range.indexCount < UInt64.size)

include hf hc

theorem restores : codec.Restores range true :=
  Json.Record.restores independent
    (.cons (restores_of (restores_word range.material))
      (.cons (restores_of (restores_count hf))
        (.cons (restores_of (restores_count hc)) .nil))) rfl

theorem shaped (hnatural : ∀ n : Nat, n < UInt64.size → kind (.integer n)) :
    Shaped kind 1 (codec.document range).toValue := by
  apply Json.Record.shaped
  have hmaterial : range.material.toNat < UInt64.size :=
    Nat.lt_trans range.material.toNat_lt (by decide)
  simp only [record, List.forall_mem_cons]
  exact ⟨Document.shaped_ofNat (hnatural _ hmaterial), Document.shaped_ofNat (hnatural _ hf),
    Document.shaped_ofNat (hnatural _ hc), fun _ h => nomatch h⟩

end DrawRange

/-! ### Reports -/

namespace PackReport

/-- A report whose counters are of 64 bits. -/
structure Sized (report : PackReport) : Prop where
  mergedMaterials : report.mergedMaterials < UInt64.size
  droppedTriangles : report.droppedTriangles < UInt64.size
  skippedCorners : report.skippedCorners < UInt64.size
  correctedAttributes : report.correctedAttributes < UInt64.size
  fallbackCorners : report.fallbackCorners < UInt64.size
  weldedCorners : report.weldedCorners < UInt64.size

theorem independent : record.Independent :=
  ⟨by decide, by simp [record, commutes_of]⟩

variable {report : PackReport}

theorem Sized.restores (h : report.Sized) : codec.Restores report true :=
  Json.Record.restores independent
    (.cons (restores_of (restores_count h.mergedMaterials))
    (.cons (restores_of (restores_count h.droppedTriangles))
    (.cons (restores_of (restores_count h.skippedCorners))
    (.cons (restores_of (restores_count h.correctedAttributes))
    (.cons (restores_of (restores_count h.fallbackCorners))
    (.cons (restores_of (restores_count h.weldedCorners)) .nil)))))) rfl

theorem Sized.shaped (h : report.Sized)
    (hnatural : ∀ n : Nat, n < UInt64.size → kind (.integer n)) :
    Shaped kind 1 (codec.document report).toValue := by
  apply Json.Record.shaped
  have hcount : ∀ n < UInt64.size, Shaped kind 0 (Json.Codec.count.document n).toValue :=
    fun n hn => Document.shaped_ofNat (hnatural n hn)
  simp only [record, List.forall_mem_cons]
  exact ⟨hcount _ h.mergedMaterials, hcount _ h.droppedTriangles, hcount _ h.skippedCorners,
    hcount _ h.correctedAttributes, hcount _ h.fallbackCorners, hcount _ h.weldedCorners,
    fun _ h => nomatch h⟩

end PackReport

/-! ### Packed meshes -/

namespace PackedMesh

/-- A packed mesh whose counts and ranges are of 64 bits. -/
structure Sized (packed : PackedMesh) : Prop where
  vertices : packed.vertexCount < UInt64.size
  indices : packed.indices.size < UInt64.size
  triangles : packed.triangleCount < UInt64.size
  materials : packed.materials.size < UInt64.size
  ranges : ∀ range ∈ packed.drawRanges,
    range.firstIndex < UInt64.size ∧ range.indexCount < UInt64.size

/-- All numbers of a packed mesh. -/
def floats (packed : PackedMesh) : List Single :=
  packed.vertices.toList ++ packed.materials.toList.flatMap Material.floats

theorem independent : record.Independent :=
  ⟨by decide, by simp [record, commutes_of]⟩

variable {packed : PackedMesh} {report : Option PackReport}

theorem Sized.restores (h : packed.Sized) :
    codec.Restores packed (packed.floats.all Binary.isFinite) := by
  have hwords : ∀ words : Array UInt32, (Json.Codec.array .word).Restores words true := fun words =>
    (restores_array fun n _ => restores_word n).congr (by simp)
  have hranges : (Json.Codec.array DrawRange.codec).Restores packed.drawRanges true :=
    (restores_array fun range hr =>
      DrawRange.restores (h.ranges range hr).1 (h.ranges range hr).2).congr (by simp)
  refine (Json.Record.restores independent
    (.cons (restores_of (restores_array fun x _ => restores_single x))
    (.cons (restores_of (hwords packed.indices))
    (.cons (restores_of (hwords packed.materialIds))
    (.cons (restores_of (restores_array fun m _ => m.restores))
    (.cons (restores_of hranges) .nil))))) rfl).congr ?_
  simp [floats]

theorem Sized.shaped (h : packed.Sized) (hc : Number.Covers kind packed.floats) :
    Shaped kind 4 (codec.document packed).toValue := by
  apply Json.Record.shaped
  have hword : ∀ word : UInt32, Shaped kind 2 (Json.Codec.word.document word).toValue := by
    intro word
    exact Document.shaped_ofNat (hc.natural _ (Nat.lt_trans word.toNat_lt (by decide)))
  have hvertex : ∀ x ∈ packed.vertices, x ∈ packed.floats := fun x hx =>
    List.mem_append_left _ (Array.mem_toList_iff.mpr hx)
  have hmaterial : ∀ m ∈ packed.materials, m.floats ⊆ packed.floats := fun m hm x hx =>
    List.mem_append_right _ (List.mem_flatMap.mpr ⟨m, Array.mem_toList_iff.mpr hm, hx⟩)
  simp only [record, List.forall_mem_cons]
  exact ⟨Json.Codec.shaped_array Json.Codec.single fun x hx =>
      Document.shaped_ofSingle (hc.single x (hvertex x hx)),
    Json.Codec.shaped_array Json.Codec.word fun _ _ => hword _,
    Json.Codec.shaped_array Json.Codec.word fun _ _ => hword _,
    Json.Codec.shaped_array Material.codec fun m hm => Material.shaped (hc.mono (hmaterial m hm)),
    Json.Codec.shaped_array DrawRange.codec fun range hr =>
      (DrawRange.shaped (h.ranges range hr).1 (h.ranges range hr).2 hc.natural).mono (by decide),
    fun _ h => nomatch h⟩

theorem Sized.shaped_summary (h : packed.Sized) (hr : ∀ r ∈ report, r.Sized)
    (hc : Number.Covers kind packed.floats) : Shaped kind 5 (packed.summary report) := by
  apply Document.shaped_object
  have hcount : ∀ n < UInt64.size, Shaped kind 4 (Document.ofNat n).toValue :=
    fun n hn => Document.shaped_ofNat (hc.natural n hn)
  refine List.forall_mem_append.mpr ⟨?_, ?_⟩
  · simp only [List.forall_mem_cons]
    exact ⟨hcount _ h.vertices, hcount _ h.indices, hcount _ h.triangles, hcount _ h.materials,
      h.shaped hc, fun _ h => nomatch h⟩
  · intro member hm
    obtain ⟨r, hmem, rfl⟩ := List.mem_map.mp hm
    exact ((hr r (Option.mem_toList.mp hmem)).shaped hc.natural).mono (by decide)

theorem Sized.readable_summary (h : packed.Sized) (hr : ∀ r ∈ report, r.Sized) :
    Readable 5 (packed.summary report) := h.shaped_summary hr (.reads _)

/-! ### What is compared of a summary -/

/-- The counts that a summary has beside the mesh. -/
def count (packed : PackedMesh) : Count → Nat
  | .vertices => packed.vertexCount
  | .indices => packed.indices.size
  | .triangles => packed.triangleCount
  | .materials => packed.materials.size

/-- The lists of the mesh in a summary. -/
def entries (packed : PackedMesh) : Part → List Value
  | .vertices => packed.vertices.toList.map fun x => (Document.ofSingle x).toValue
  | .indices => packed.indices.toList.map fun index => .number (.integer index.toNat)
  | .materialIds => packed.materialIds.toList.map fun id => .number (.integer id.toNat)
  | .materials => packed.materials.toList.map fun m => (Material.codec.document m).toValue

theorem summary_count (packed : PackedMesh) (report : Option PackReport) (which : Count) :
    (packed.summary report).get which.name = .number (.integer (packed.count which)) := by
  rw [summary, summaryDocument, Document.get_toValue]
  cases report <;> cases which <;> simp [List.lookup_cons, Count.name, count] <;> rfl

theorem summary_mesh (packed : PackedMesh) (report : Option PackReport) :
    (packed.summary report).get "mesh" = (codec.document packed).toValue := by
  rw [summary, summaryDocument, Document.get_toValue]
  cases report <;> simp [List.lookup_cons]

theorem summary_report (packed : PackedMesh) (counted : PackReport) :
    (packed.summary (some counted)).get "report" = (PackReport.codec.document counted).toValue := by
  rw [summary, summaryDocument, Document.get_toValue]
  simp

theorem mem_names_summary (packed : PackedMesh) (report : Option PackReport) :
    "report" ∈ (packed.summary report).names ↔ report.isSome = true := by
  have hnames : ∀ members : List (String × Value), (members.map Prod.fst).Nodup →
      ("report" ∈ (Json.sortedMembers members).map Prod.fst ↔ "report" ∈ members.map Prod.fst) :=
    fun members h => ((Json.sortedMembers_perm h).map Prod.fst).mem_iff
  rw [summary, summaryDocument, Document.toValue, Json.Tree.names, Document.memberValues_eq]
  cases report with
  | none =>
    rw [hnames _ (by simp)]
    simp
  | some counted =>
    rw [hnames _ (by simp)]
    simp

theorem mesh_entries (packed : PackedMesh) (which : Part) :
    ((codec.document packed).toValue).get which.name = .array (packed.entries which) := by
  have hobject : codec.document packed =
      .object (record.fields.map fun field => (field.name, field.document packed)) := rfl
  rw [hobject, Document.get_toValue]
  cases which <;>
    simp [record, List.lookup_cons, Part.name, Json.RecordField.of, Json.Codec.array,
      Document.toValue, Document.entryValues_eq, entries] <;>
    exact fun _ _ => rfl

end PackedMesh

end RenderMesh
