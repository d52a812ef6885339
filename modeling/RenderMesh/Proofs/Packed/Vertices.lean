import Mathlib.Data.List.Basic
import RenderMesh.Packed

/-!
# Vertices of a packed mesh

A vertex is asked for by its number. The numbers that have one are those of the whole vertices in
the buffer, and one after another these are the buffer, but for a part of a vertex at its end. No
number is so great that its vertex starts over at the front.
-/

namespace RenderMesh

namespace Vertex

variable {floats : List Single}

/-- A vertex is read off its own numbers, whatever stands behind them. -/
theorem ofFloats?_eq_some_iff {v : Vertex} :
    ofFloats? floats = some v ↔ floats.take stride = v.floats := by
  constructor
  · intro h
    unfold ofFloats? at h
    split at h
    · cases h
      rfl
    · exact nomatch h
  · intro h
    rw [← List.take_append_drop stride floats, h]
    exact ofFloats?_floats_append v _

theorem ofFloats?_take (floats : List Single) :
    ofFloats? (floats.take stride) = ofFloats? floats := by
  ext v
  rw [ofFloats?_eq_some_iff, ofFloats?_eq_some_iff, List.take_take, Nat.min_self]

theorem isSome_ofFloats?_iff : (ofFloats? floats).isSome = true ↔ stride ≤ floats.length := by
  constructor
  · intro h
    obtain ⟨v, hv⟩ := Option.isSome_iff_exists.mp h
    have hlength := congrArg List.length (ofFloats?_eq_some_iff.mp hv)
    rw [List.length_take, length_floats] at hlength
    omega
  · intro h
    match floats, h with
    | _ :: _ :: _ :: _ :: _ :: _ :: _ :: _ :: _, _ => rfl

end Vertex

namespace PackedMesh

variable {packed : PackedMesh} {number : UInt64}

theorem vertex?_of_lt (packed : PackedMesh) {number : UInt64}
    (h : number.toNat * Vertex.stride < UInt64.size) :
    packed.vertex? number = Vertex.ofFloats? (packed.vertices.extract
      (number.toNat * Vertex.stride) (number.toNat * Vertex.stride + Vertex.stride)).toList :=
  if_pos h

/-- A vertex is what is read from its start on, as far as the buffer goes. -/
theorem vertex?_eq_ofFloats?_drop (packed : PackedMesh) {number : UInt64}
    (h : number.toNat * Vertex.stride < UInt64.size) : packed.vertex? number =
      Vertex.ofFloats? (packed.vertices.toList.drop (number.toNat * Vertex.stride)) := by
  rw [packed.vertex?_of_lt h, Array.toList_extract, List.extract_eq_take_drop,
    Nat.add_sub_cancel_left, Vertex.ofFloats?_take]

theorem isSome_vertex?_iff : (packed.vertex? number).isSome = true ↔
    number.toNat * Vertex.stride < UInt64.size ∧
      number.toNat * Vertex.stride + Vertex.stride ≤ packed.vertices.size := by
  by_cases h : number.toNat * Vertex.stride < UInt64.size
  · rw [packed.vertex?_eq_ofFloats?_drop h, Vertex.isSome_ofFloats?_iff, List.length_drop,
      Array.length_toList, and_iff_right h, Vertex.stride]
    omega
  · rw [vertex?, if_neg h]
    simp [h]

theorem floats_of_vertex? {v : Vertex} (h : packed.vertex? number = some v) :
    v.floats = (packed.vertices.extract (number.toNat * Vertex.stride)
      (number.toNat * Vertex.stride + Vertex.stride)).toList := by
  obtain ⟨hword, _⟩ := isSome_vertex?_iff.mp (Option.isSome_of_eq_some h)
  rw [packed.vertex?_eq_ofFloats?_drop hword, Vertex.ofFloats?_eq_some_iff] at h
  rw [Array.toList_extract, List.extract_eq_take_drop, Nat.add_sub_cancel_left]
  exact h.symm

theorem lt_vertexCount_iff {place : Nat} : place < packed.vertexCount ↔
    place * Vertex.stride + Vertex.stride ≤ packed.vertices.size := by
  rw [vertexCount, Vertex.stride]
  omega

/-- In a buffer of 64 bits no start of a vertex leaves the words. -/
theorem isSome_vertex?_iff_lt (sized : packed.vertices.size < UInt64.size) :
    (packed.vertex? number).isSome = true ↔ number.toNat < packed.vertexCount := by
  rw [isSome_vertex?_iff, lt_vertexCount_iff, Vertex.stride]
  omega

/-! ### All vertices -/

/-- The whole vertices in the buffer. -/
def wholeVertices (packed : PackedMesh) : List Vertex :=
  (List.range packed.vertexCount).filterMap fun number => packed.vertex? number.toUInt64

theorem toNat_number (sized : packed.vertices.size < UInt64.size) {place : Nat}
    (h : place < packed.vertexCount) : place.toUInt64.toNat = place := by
  have hle := lt_vertexCount_iff.mp h
  rw [Vertex.stride] at hle
  exact Nat.mod_eq_of_lt (by rw [UInt64.size] at sized; omega)

theorem map_vertex?_range (sized : packed.vertices.size < UInt64.size) :
    ((List.range packed.vertexCount).map fun number => packed.vertex? number.toUInt64) =
      packed.wholeVertices.map some := by
  rw [wholeVertices, List.map_filterMap_some_eq_filter_map_isSome, eq_comm, List.filter_eq_self]
  intro found hfound
  obtain ⟨place, hplace, rfl⟩ := List.mem_map.mp hfound
  have hlt := List.mem_range.mp hplace
  rw [isSome_vertex?_iff_lt sized, toNat_number sized hlt]
  exact hlt

/-- So many vertices, from the first one on, are so many numbers of the buffer. -/
theorem floats_of_first (sized : packed.vertices.size < UInt64.size) {count : Nat}
    (h : count ≤ packed.vertexCount) :
    ((List.range count).filterMap fun number => packed.vertex? number.toUInt64).flatMap
      Vertex.floats = packed.vertices.toList.take (count * Vertex.stride) := by
  induction count with
  | zero => rw [Nat.zero_mul, List.take_zero]; rfl
  | succ count ih =>
    have hnumber := toNat_number sized h
    have hsome : (packed.vertex? count.toUInt64).isSome = true := by
      rw [isSome_vertex?_iff_lt sized, hnumber]
      exact h
    obtain ⟨v, hv⟩ := Option.isSome_iff_exists.mp hsome
    have hfloats := floats_of_vertex? hv
    rw [hnumber, Array.toList_extract, List.extract_eq_take_drop, Nat.add_sub_cancel_left]
      at hfloats
    rw [List.range_succ, List.filterMap_append, List.flatMap_append, ih (Nat.le_of_succ_le h),
      Nat.succ_mul, List.take_add, ← hfloats]
    simp [hv]

/-- The vertices of a buffer are numbered without a gap, and no other number has one. Each is the
numbers of its place, and together they are the buffer up to its last whole vertex. -/
theorem vertices_cover_buffer (packed : PackedMesh) (sized : packed.vertices.size < UInt64.size) :
    (∀ number : UInt64,
      ((packed.vertex? number).isSome = true ↔ number.toNat < packed.vertexCount) ∧
      ∀ vertex, packed.vertex? number = some vertex → vertex.floats =
        (packed.vertices.extract (number.toNat * Vertex.stride)
          (number.toNat * Vertex.stride + Vertex.stride)).toList) ∧
    (((List.range packed.vertexCount).map fun number => packed.vertex? number.toUInt64) =
        packed.wholeVertices.map some ∧
      packed.wholeVertices.flatMap Vertex.floats =
        packed.vertices.toList.take
          (packed.vertices.size - packed.vertices.size % Vertex.stride)) ∧
    (∀ vertex rest, Vertex.ofFloats? (vertex.floats ++ rest) = some vertex) ∧
    ∀ floats vertex, Vertex.ofFloats? floats = some vertex ↔
      floats.take Vertex.stride = vertex.floats := by
  have hwhole : packed.vertices.size - packed.vertices.size % Vertex.stride =
      packed.vertexCount * Vertex.stride := by
    rw [vertexCount, Nat.div_mul_self_eq_mod_sub_self]
  refine ⟨fun number => ⟨isSome_vertex?_iff_lt sized, fun _ => floats_of_vertex?⟩,
    ⟨map_vertex?_range sized, ?_⟩, Vertex.ofFloats?_floats_append,
    fun _ _ => Vertex.ofFloats?_eq_some_iff⟩
  rw [hwhole]
  exact floats_of_first sized (Nat.le_refl _)

/-- Two vertices and one number of a third. -/
def ragged : PackedMesh where
  vertices := ((List.range 17).map fun n => .ofInt n).toArray

/-- Eight times the last of the numbers asked for is zero as a word, and still it has no vertex. -/
theorem vertices_cover_buffer_ragged :
    ragged.vertices.size < UInt64.size ∧
    (ragged.vertex? 1).isSome = true ∧
    ((ragged.vertex? 2).isSome = false ∧ (ragged.vertex? 0x2000000000000000).isSome = false) ∧
    ragged.wholeVertices.flatMap Vertex.floats = ragged.vertices.toList.take 16 := by
  have hsize : ragged.vertices.size = 17 := rfl
  have hcount : ragged.vertexCount = 2 := rfl
  have sized : ragged.vertices.size < UInt64.size := by rw [hsize]; decide
  obtain ⟨hnumbers, ⟨_, hfloats⟩, _⟩ := vertices_cover_buffer ragged sized
  have hsome : ∀ number, (ragged.vertex? number).isSome = true ↔ number.toNat < 2 :=
    fun number => hcount ▸ (hnumbers number).1
  refine ⟨sized, (hsome 1).mpr (by decide), ⟨?_, ?_⟩, hfloats⟩
  · exact Bool.eq_false_iff.mpr fun h => absurd ((hsome _).mp h) (by decide)
  · exact Bool.eq_false_iff.mpr fun h => absurd ((hsome _).mp h) (by decide)

end PackedMesh

end RenderMesh
