import Mathlib.Data.List.Nodup
import Mathlib.Tactic.TFAE
import RenderMesh.Proofs.Welder.History

/-!
# Numbers of vertices

Vertices are the distinct pairs of the readable corners in order of first appearance, and the index
of a corner is eight times the number of its pair. Offsets are words: as long as there are at most
`2 ^ 29` pairs they tell pairs apart and reach every vertex, and beyond that they do neither.
-/

namespace RenderMesh

theorem take_drop_flatMap {α β : Type} {f : α → List β} {n : Nat} (hf : ∀ a, (f a).length = n)
    {l : List α} {k : Nat} {a : α} (h : l[k]? = some a) :
    ((l.flatMap f).drop (n * k)).take n = f a := by
  induction l generalizing k with
  | nil => simp at h
  | cons b rest ih =>
    rw [List.flatMap_cons]
    cases k with
    | zero =>
      have hb : b = a := by simpa using h
      rw [Nat.mul_zero, List.drop_zero, hb]
      exact List.take_left' (hf a)
    | succ k =>
      have hr : rest[k]? = some a := by simpa using h
      have hn : n * (k + 1) = (f b).length + n * k := by
        rw [hf b, Nat.mul_succ, Nat.add_comm]
      rw [hn, List.drop_length_add_append]
      exact ih hr

namespace Welder

variable {mesh : Mesh} {w : Welder} {pairs : List Corner}

theorem Numbered.vertex_at (h : Numbered mesh pairs w) {number : Nat} {pair : Corner}
    (hp : pairs.eraseDups[number]? = some pair) :
    (w.vertices.extract (Vertex.stride * number) (Vertex.stride * number + Vertex.stride)).toList =
      (mesh.vertex pair).floats := by
  rw [Array.toList_extract, h.vertices, List.extract_eq_take_drop, Nat.add_sub_cancel_left]
  exact take_drop_flatMap (fun pair => (mesh.vertex pair).length_floats) hp

theorem Numbered.index_at (h : Numbered mesh pairs w) {i : Nat} {pair : Corner}
    (hi : pairs[i]? = some pair) :
    w.indices[i]? = some (Vertex.offset (pairs.eraseDups.idxOf pair)) := by
  rw [← Array.getElem?_toList, h.indices, List.getElem?_map, hi]
  rfl

theorem Numbered.indices_size (h : Numbered mesh pairs w) : w.indices.size = pairs.length := by
  rw [← Array.length_toList, h.indices, List.length_map]

theorem toNat_offset_of_lt {number : Nat} (h : number < 2 ^ 29) :
    (Vertex.offset number).toNat = 8 * number := by
  rw [Vertex.toNat_offset]
  exact Nat.mod_eq_of_lt (by simp only [Vertex.stride, UInt32.size]; omega)

/-- The numbers of the vertex that an index refers to. -/
def vertexAt (w : Welder) (index : UInt32) : List Single :=
  (w.vertices.extract index.toNat (index.toNat + Vertex.stride)).toList

theorem Numbered.vertexAt_offset (h : Numbered mesh pairs w)
    (few : pairs.eraseDups.length ≤ 2 ^ 29) {pair : Corner} (hm : pair ∈ pairs) :
    w.vertexAt (Vertex.offset (pairs.eraseDups.idxOf pair)) = (mesh.vertex pair).floats := by
  have hp := FirstAppearance.getElem?_idxOf_eraseDups hm
  have hlt := Nat.lt_of_lt_of_le (List.getElem?_eq_some_iff.mp hp).1 few
  rw [vertexAt, toNat_offset_of_lt hlt]
  exact h.vertex_at hp

/-- Corners of different pairs have different indices. -/
def SeparatesPairs (mesh : Mesh) (triangles : List Triangle) : Prop :=
  ∀ (i j : Nat) (p q : Corner), (mesh.pairs triangles)[i]? = some p →
    (mesh.pairs triangles)[j]? = some q → p ≠ q →
    (weld mesh triangles).indices[i]? ≠ (weld mesh triangles).indices[j]?

/-- Every vertex is the target of an index. -/
def ReachesVertices (mesh : Mesh) (triangles : List Triangle) : Prop :=
  ∀ number : Nat, number < (weld mesh triangles).vertices.size / 8 →
    ∃ index ∈ (weld mesh triangles).indices, index.toNat = 8 * number

theorem numbered_weld (mesh : Mesh) (triangles : List Triangle) :
    Numbered mesh (mesh.pairs triangles) (weld mesh triangles) :=
  (seen_weld mesh triangles).toNumbered

theorem weld_indices (mesh : Mesh) (triangles : List Triangle) :
    (weld mesh triangles).indices.toList = (mesh.pairs triangles).map fun pair =>
      Vertex.offset ((mesh.distinctPairs triangles).idxOf pair) :=
  (numbered_weld mesh triangles).indices

theorem weld_indices_size (mesh : Mesh) (triangles : List Triangle) :
    (weld mesh triangles).indices.size = mesh.readable triangles := by
  rw [(numbered_weld mesh triangles).indices_size, mesh.length_pairs]

theorem weld_vertices_size (mesh : Mesh) (triangles : List Triangle) :
    (weld mesh triangles).vertices.size = 8 * (mesh.distinctPairs triangles).length :=
  (numbered_weld mesh triangles).vertices_size

/-- Indices never change once they are emitted. -/
theorem weld_append_index (mesh : Mesh) (triangles more : List Triangle) {place : Nat}
    (h : place < (weld mesh triangles).indices.size) :
    (weld mesh (triangles ++ more)).indices[place]? = (weld mesh triangles).indices[place]? := by
  have hbefore := numbered_weld mesh triangles
  have hafter := numbered_weld mesh (triangles ++ more)
  rw [hbefore.indices_size] at h
  have hi := List.getElem?_eq_getElem h
  have hj : (mesh.pairs (triangles ++ more))[place]? = some (mesh.pairs triangles)[place] := by
    rw [mesh.pairs_append, List.getElem?_append_left h, hi]
  rw [hbefore.index_at hi, hafter.index_at hj, mesh.pairs_append,
    FirstAppearance.idxOf_eraseDups_append_of_mem (List.getElem_mem h)]

theorem exists_index_of_distinct {triangles : List Triangle} {number : Nat} {pair : Corner}
    (h : (mesh.distinctPairs triangles)[number]? = some pair) :
    ∃ i : Nat, (mesh.pairs triangles)[i]? = some pair ∧
      (weld mesh triangles).indices[i]? = some (Vertex.offset number) := by
  have hm : pair ∈ mesh.pairs triangles := List.mem_eraseDups.mp (List.mem_of_getElem? h)
  obtain ⟨i, hi⟩ := List.getElem?_of_mem hm
  refine ⟨i, hi, ?_⟩
  rw [(numbered_weld mesh triangles).index_at hi,
    FirstAppearance.idxOf_eraseDups_of_getElem? h]

theorem length_le_of_separatesPairs {triangles : List Triangle}
    (h : SeparatesPairs mesh triangles) : (mesh.distinctPairs triangles).length ≤ 2 ^ 29 := by
  by_contra hlong
  -- The first pair and the one whose offset wraps around to zero share an index.
  have hfirst : 0 < (mesh.distinctPairs triangles).length := by omega
  have hwrapped : 2 ^ 29 < (mesh.distinctPairs triangles).length := by omega
  obtain ⟨i, hi, hzero⟩ := exists_index_of_distinct (List.getElem?_eq_getElem hfirst)
  obtain ⟨j, hj, hagain⟩ := exists_index_of_distinct (List.getElem?_eq_getElem hwrapped)
  have hne : (mesh.distinctPairs triangles)[0] ≠ (mesh.distinctPairs triangles)[2 ^ 29] := by
    intro he
    have hk := (List.Nodup.getElem_inj_iff (FirstAppearance.nodup_eraseDups _)).mp he
    omega
  apply h i j _ _ hi hj hne
  rw [hzero, hagain]
  rfl

theorem reachesVertices_of_length_le {triangles : List Triangle}
    (h : (mesh.distinctPairs triangles).length ≤ 2 ^ 29) : ReachesVertices mesh triangles := by
  intro number hn
  rw [weld_vertices_size] at hn
  have hk : number < (mesh.distinctPairs triangles).length := by omega
  obtain ⟨i, _, hi⟩ := exists_index_of_distinct (List.getElem?_eq_getElem hk)
  exact ⟨Vertex.offset number, Array.mem_of_getElem? hi, toNat_offset_of_lt (by omega)⟩

theorem length_le_of_reachesVertices {triangles : List Triangle}
    (h : ReachesVertices mesh triangles) : (mesh.distinctPairs triangles).length ≤ 2 ^ 29 := by
  by_contra hlong
  obtain ⟨index, _, hi⟩ := h (2 ^ 29) (by rw [weld_vertices_size]; omega)
  have hlt := index.toNat_lt
  omega

theorem separatesPairs_of_length_le {triangles : List Triangle}
    (h : (mesh.distinctPairs triangles).length ≤ 2 ^ 29) : SeparatesPairs mesh triangles := by
  intro i j p q hi hj hne hsame
  have hp := FirstAppearance.getElem?_idxOf_eraseDups (List.mem_of_getElem? hi)
  have hq := FirstAppearance.getElem?_idxOf_eraseDups (List.mem_of_getElem? hj)
  have hpn := (List.getElem?_eq_some_iff.mp hp).1
  have hqn := (List.getElem?_eq_some_iff.mp hq).1
  rw [(numbered_weld mesh triangles).index_at hi,
    (numbered_weld mesh triangles).index_at hj] at hsame
  have hoffset := congrArg UInt32.toNat (Option.some.inj hsame)
  rw [toNat_offset_of_lt (Nat.lt_of_lt_of_le hpn h),
    toNat_offset_of_lt (Nat.lt_of_lt_of_le hqn h)] at hoffset
  have hnumber := Nat.eq_of_mul_eq_mul_left (by omega) hoffset
  rw [hnumber, hq] at hp
  exact hne (Option.some.inj hp).symm

/-- Vertices are numbered by the first appearance of their pairs, and an index is eight times the
number of its corner's pair, as a word. Up to `2 ^ 29` pairs, and only so far, indices tell pairs
apart and reach every vertex. -/
theorem weld_numbers_by_first_appearance (mesh : Mesh) (triangles : List Triangle) :
    (∀ pair, pair ∈ mesh.distinctPairs triangles ↔ pair ∈ mesh.pairs triangles) ∧
    (mesh.distinctPairs triangles).Pairwise (fun p q =>
      (mesh.pairs triangles).idxOf p < (mesh.pairs triangles).idxOf q) ∧
    (weld mesh triangles).vertices.size = 8 * (mesh.distinctPairs triangles).length ∧
    (∀ (number : Nat) (pair : Corner), (mesh.distinctPairs triangles)[number]? = some pair →
      ((weld mesh triangles).vertices.extract (8 * number) (8 * number + 8)).toList =
        (mesh.vertex pair).floats) ∧
    (weld mesh triangles).indices.size = (mesh.pairs triangles).length ∧
    (∀ (i number : Nat) (pair : Corner), (mesh.pairs triangles)[i]? = some pair →
      (mesh.distinctPairs triangles)[number]? = some pair →
      (weld mesh triangles).indices[i]?.map UInt32.toNat = some (8 * number % 2 ^ 32)) ∧
    (∀ i j : Nat, (mesh.pairs triangles)[i]? = (mesh.pairs triangles)[j]? →
      (weld mesh triangles).indices[i]? = (weld mesh triangles).indices[j]?) ∧
    (mesh.distinctPairs triangles).Nodup ∧
    [SeparatesPairs mesh triangles, ReachesVertices mesh triangles,
      (mesh.distinctPairs triangles).length ≤ 2 ^ 29].TFAE := by
  have h := numbered_weld mesh triangles
  refine ⟨fun pair => List.mem_eraseDups, FirstAppearance.pairwise_idxOf_eraseDups _,
    weld_vertices_size mesh triangles, ?_, h.indices_size, ?_, ?_,
    FirstAppearance.nodup_eraseDups _, ?_⟩
  · intro number pair hp
    exact h.vertex_at hp
  · intro i number pair hi hp
    rw [h.index_at hi, FirstAppearance.idxOf_eraseDups_of_getElem? hp, Option.map_some,
      Vertex.toNat_offset]
    rfl
  · intro i j hij
    rw [← Array.getElem?_toList, ← Array.getElem?_toList, h.indices, List.getElem?_map,
      List.getElem?_map, hij]
  · tfae_have 1 → 3 := length_le_of_separatesPairs
    tfae_have 3 → 2 := reachesVertices_of_length_le
    tfae_have 2 → 3 := length_le_of_reachesVertices
    tfae_have 3 → 1 := separatesPairs_of_length_le
    tfae_finish

end Welder

end RenderMesh
