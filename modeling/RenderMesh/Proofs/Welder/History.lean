import RenderMesh.Proofs.Corner
import RenderMesh.Proofs.FirstAppearance
import RenderMesh.Welder

/-!
# What a welder has seen

A welder walks places of the corner streams. What it holds is a function of the places so far: the
vertices are the distinct pairs in order of first appearance, an index is the offset of its pair
among them, and each counter counts places. One corner keeps this, so every run has it.
-/

namespace RenderMesh

/-- Where the vertex of a number starts, as a word. -/
def Vertex.offset (number : Nat) : UInt32 := (stride * number).toUInt32

theorem Vertex.toNat_offset (number : Nat) :
    (Vertex.offset number).toNat = stride * number % UInt32.size := rfl

/-- The places of a triangle's corners in the corner streams. -/
def Triangle.places (triangle : Triangle) : List Nat :=
  [0, 1, 2].map fun c => triangle.baseCorner.toNat + c

theorem Triangle.length_flatMap_places (triangles : List Triangle) :
    (triangles.flatMap places).length = 3 * triangles.length := by
  induction triangles with
  | nil => rfl
  | cons triangle rest ih =>
    rw [List.flatMap_cons, List.length_append, ih, List.length_cons]
    simp only [places, List.length_map, List.length_cons, List.length_nil]
    omega

namespace Mesh

/-- The pair of indices in range that the corner at a place resolves to. -/
def pair? (mesh : Mesh) (place : Nat) : Option Corner :=
  (mesh.corner? place).map fun corner => (mesh.resolve corner).corner

/-- The pairs of the readable corners among some places, in order. -/
def pairsAt (mesh : Mesh) (places : List Nat) : List Corner := places.filterMap mesh.pair?

/-- The pairs of the readable corners of triangles, in the order of welding. -/
def pairs (mesh : Mesh) (triangles : List Triangle) : List Corner :=
  mesh.pairsAt (triangles.flatMap Triangle.places)

/-- The distinct pairs of the readable corners of triangles, in order of first appearance. -/
def distinctPairs (mesh : Mesh) (triangles : List Triangle) : List Corner :=
  (mesh.pairs triangles).eraseDups

/-- How many corners of some triangles can be read. -/
def readable (mesh : Mesh) (triangles : List Triangle) : Nat :=
  (triangles.flatMap Triangle.places).countP (· < mesh.cornerCount)

/-- Whether nothing stands at a place of the corner streams. -/
def unreadable (mesh : Mesh) (place : Nat) : Bool := (mesh.corner? place).isNone

/-- Whether the attribute index at a place is shifted. -/
def shiftedAt (mesh : Mesh) (place : Nat) : Bool :=
  (mesh.corner? place).any fun corner => (mesh.resolve corner).corrected

/-- Whether the corner at a place falls back. -/
def fallbackAt (mesh : Mesh) (place : Nat) : Bool :=
  (mesh.corner? place).any fun corner => (mesh.resolve corner).resolution == .fallback

theorem pairs_append (mesh : Mesh) (xs ys : List Triangle) :
    mesh.pairs (xs ++ ys) = mesh.pairs xs ++ mesh.pairs ys := by
  rw [pairs, List.flatMap_append, pairsAt, List.filterMap_append]
  rfl

theorem pairs_eq_flatMap (mesh : Mesh) (triangles : List Triangle) :
    mesh.pairs triangles = triangles.flatMap fun triangle => mesh.pairsAt triangle.places :=
  List.filterMap_flatMap

theorem readable_append (mesh : Mesh) (xs ys : List Triangle) :
    mesh.readable (xs ++ ys) = mesh.readable xs + mesh.readable ys := by
  rw [readable, List.flatMap_append, List.countP_append]
  rfl

theorem isSome_pair? (mesh : Mesh) (place : Nat) :
    (mesh.pair? place).isSome = decide (place < mesh.cornerCount) := by
  rw [pair?, Option.isSome_map, Bool.eq_iff_iff, decide_eq_true_eq, ← Nat.not_le,
    ← mesh.corner?_eq_none_iff, Option.isSome_iff_ne_none]

theorem length_pairs (mesh : Mesh) (triangles : List Triangle) :
    (mesh.pairs triangles).length = mesh.readable triangles := by
  rw [pairs, pairsAt, List.length_filterMap_eq_countP]
  simp only [isSome_pair?, readable]

theorem length_pairs_le (mesh : Mesh) (triangles : List Triangle) :
    (mesh.pairs triangles).length ≤ 3 * triangles.length := by
  rw [length_pairs, ← Triangle.length_flatMap_places]
  exact List.countP_le_length

end Mesh

namespace Welder

/-- The buffers after pairs were emitted one after the other. -/
structure Numbered (mesh : Mesh) (pairs : List Corner) (w : Welder) : Prop where
  cache : ∀ pair : Corner, w.cache[pair.key]? =
    if pair ∈ pairs then some (Vertex.offset (pairs.eraseDups.idxOf pair)) else none
  vertices : w.vertices.toList = pairs.eraseDups.flatMap fun pair => (mesh.vertex pair).floats
  indices : w.indices.toList = pairs.map fun pair => Vertex.offset (pairs.eraseDups.idxOf pair)
  welded : w.weldedCorners + pairs.eraseDups.length = pairs.length

/-- A welder after the corners at some places. -/
structure Seen (mesh : Mesh) (places : List Nat) (w : Welder) : Prop
    extends Numbered mesh (mesh.pairsAt places) w where
  skipped : w.skippedCorners = places.countP mesh.unreadable
  corrected : w.correctedAttributes = places.countP mesh.shiftedAt
  fallback : w.fallbackCorners = places.countP mesh.fallbackAt

theorem numbered_empty (mesh : Mesh) : Numbered mesh [] {} where
  cache pair := by simp
  vertices := rfl
  indices := rfl
  welded := rfl

variable {mesh : Mesh} {w : Welder}

theorem Numbered.vertices_size {pairs : List Corner} (h : Numbered mesh pairs w) :
    w.vertices.size = Vertex.stride * pairs.eraseDups.length := by
  rw [← Array.length_toList, h.vertices, List.length_flatMap]
  simp only [Vertex.length_floats, List.map_const', List.sum_replicate_nat]
  exact Nat.mul_comm _ _

theorem emit_of_cached {pair : Corner} {offset : UInt32} (h : w.cache[pair.key]? = some offset) :
    w.emit mesh pair =
      { w with indices := w.indices.push offset, weldedCorners := w.weldedCorners + 1 } := by
  rw [emit, h]

theorem emit_of_notCached {pair : Corner} (h : w.cache[pair.key]? = none) :
    w.emit mesh pair =
      { w with
        cache := w.cache.insert pair.key w.vertices.size.toUInt32
        vertices := w.vertices ++ (mesh.vertex pair).floats
        indices := w.indices.push w.vertices.size.toUInt32 } := by
  rw [emit, h]

/-- A known pair reuses its offset. -/
theorem Numbered.emit_known {pairs : List Corner} (h : Numbered mesh pairs w) {pair : Corner}
    (hm : pair ∈ pairs) : Numbered mesh (pairs ++ [pair]) (w.emit mesh pair) := by
  have hd := FirstAppearance.eraseDups_concat_of_mem hm
  have hw := h.welded
  have hc : w.cache[pair.key]? = some (Vertex.offset (pairs.eraseDups.idxOf pair)) := by
    rw [h.cache, if_pos hm]
  rw [emit_of_cached hc]
  constructor
  · intro other
    have hmem : other ∈ pairs ++ [pair] ↔ other ∈ pairs := by
      rw [List.mem_append, List.mem_singleton]
      exact ⟨fun ho => ho.elim id fun he => he ▸ hm, Or.inl⟩
    simp only [hd, hmem]
    exact h.cache other
  · rw [hd]
    exact h.vertices
  · rw [hd, List.map_append, ← h.indices]
    exact Array.toList_push
  · rw [hd, List.length_append]
    simp only [List.length_singleton]
    omega

/-- A new pair takes the next offset, and its vertex comes last. -/
theorem Numbered.emit_new {pairs : List Corner} (h : Numbered mesh pairs w) {pair : Corner}
    (hm : pair ∉ pairs) : Numbered mesh (pairs ++ [pair]) (w.emit mesh pair) := by
  have hd := FirstAppearance.eraseDups_concat_of_notMem hm
  have hlast := FirstAppearance.idxOf_eraseDups_concat_self hm
  have hw := h.welded
  have hc : w.cache[pair.key]? = none := by
    rw [h.cache, if_neg hm]
  have hoffset : w.vertices.size.toUInt32 = Vertex.offset pairs.eraseDups.length := by
    rw [h.vertices_size, Vertex.offset]
  rw [emit_of_notCached hc, hoffset]
  constructor
  · -- Keys are injective, so the look-up of no other pair changes.
    intro other
    simp only [Std.HashMap.getElem?_insert, beq_iff_eq, List.mem_append, List.mem_singleton]
    by_cases he : other = pair
    · rw [he, if_pos rfl, if_pos (Or.inr rfl), hlast]
    · have hk : pair.key ≠ other.key := fun hk => he (Corner.key_injective hk).symm
      rw [if_neg hk, h.cache]
      by_cases ho : other ∈ pairs
      · rw [if_pos ho, if_pos (Or.inl ho), FirstAppearance.idxOf_eraseDups_append_of_mem ho]
      · rw [if_neg ho, if_neg (fun hor => hor.elim ho he)]
  · rw [hd, List.flatMap_append, ← h.vertices, List.flatMap_singleton]
    exact Array.toList_appendList ..
  · have hkept : (pairs.map fun other => Vertex.offset ((pairs ++ [pair]).eraseDups.idxOf other)) =
        pairs.map fun other => Vertex.offset (pairs.eraseDups.idxOf other) :=
      List.map_congr_left fun other ho => by
        rw [FirstAppearance.idxOf_eraseDups_append_of_mem ho]
    rw [List.map_append, hkept, ← h.indices, List.map_singleton, hlast]
    exact Array.toList_push
  · rw [hd, List.length_append, List.length_append]
    simp only [List.length_singleton]
    omega

theorem Numbered.emit {pairs : List Corner} (h : Numbered mesh pairs w) (pair : Corner) :
    Numbered mesh (pairs ++ [pair]) (w.emit mesh pair) := by
  by_cases hm : pair ∈ pairs
  · exact h.emit_known hm
  · exact h.emit_new hm

theorem emit_frame (w : Welder) (pair : Corner) :
    (w.emit mesh pair).skippedCorners = w.skippedCorners ∧
    (w.emit mesh pair).correctedAttributes = w.correctedAttributes ∧
    (w.emit mesh pair).fallbackCorners = w.fallbackCorners ∧
    (w.emit mesh pair).materialIds = w.materialIds ∧
    (w.emit mesh pair).drawRanges = w.drawRanges := by
  unfold emit
  split <;> exact ⟨rfl, rfl, rfl, rfl, rfl⟩

theorem weldCorner_of_none {place : Nat} (h : mesh.corner? place = none) :
    w.weldCorner mesh place = { w with skippedCorners := w.skippedCorners + 1 } := by
  rw [weldCorner, h]

/-- The counters after a corner was resolved. -/
def counted (w : Welder) (resolved : ResolvedCorner) : Welder :=
  { w with
    correctedAttributes := w.correctedAttributes + resolved.corrected.toNat
    fallbackCorners := w.fallbackCorners + (resolved.resolution == Resolution.fallback).toNat }

theorem Numbered.counted {pairs : List Corner} (h : Numbered mesh pairs w)
    (resolved : ResolvedCorner) : Numbered mesh pairs (w.counted resolved) :=
  ⟨h.cache, h.vertices, h.indices, h.welded⟩

theorem weldCorner_of_some {place : Nat} {corner : Corner} (h : mesh.corner? place = some corner) :
    w.weldCorner mesh place =
      (w.counted (mesh.resolve corner)).emit mesh (mesh.resolve corner).corner := by
  rw [weldCorner, h]
  rfl

theorem weldCorner_frame (w : Welder) (place : Nat) :
    (w.weldCorner mesh place).materialIds = w.materialIds ∧
    (w.weldCorner mesh place).drawRanges = w.drawRanges := by
  cases hc : mesh.corner? place with
  | none =>
    rw [weldCorner_of_none hc]
    exact ⟨rfl, rfl⟩
  | some corner =>
    rw [weldCorner_of_some hc]
    exact (emit_frame _ _).2.2.2

theorem countP_concat (p : Nat → Bool) (places : List Nat) (place : Nat) :
    (places ++ [place]).countP p = places.countP p + (p place).toNat := by
  rw [List.countP_append, List.countP_singleton]
  cases p place <;> rfl

/-- One corner more, readable or not. -/
theorem Seen.weldCorner {places : List Nat} (h : Seen mesh places w) (place : Nat) :
    Seen mesh (places ++ [place]) (w.weldCorner mesh place) := by
  cases hc : mesh.corner? place with
  | none =>
    -- Nothing is emitted, and of the counters only the skipped corners grow.
    have hp : mesh.pairsAt (places ++ [place]) = mesh.pairsAt places := by
      simp [Mesh.pairsAt, Mesh.pair?, hc]
    rw [weldCorner_of_none hc]
    refine ⟨?_, ?_, ?_, ?_⟩
    · rw [hp]
      exact ⟨h.cache, h.vertices, h.indices, h.welded⟩
    · rw [countP_concat, ← h.skipped]
      simp [Mesh.unreadable, hc]
    · rw [countP_concat, ← h.corrected]
      simp [Mesh.shiftedAt, hc]
    · rw [countP_concat, ← h.fallback]
      simp [Mesh.fallbackAt, hc]
  | some corner =>
    have hp : mesh.pairsAt (places ++ [place]) =
        mesh.pairsAt places ++ [(mesh.resolve corner).corner] := by
      simp [Mesh.pairsAt, Mesh.pair?, hc]
    rw [weldCorner_of_some hc]
    refine ⟨?_, ?_, ?_, ?_⟩
    · rw [hp]
      exact (h.toNumbered.counted _).emit _
    · rw [countP_concat, (emit_frame _ _).1, ← h.skipped]
      simp [Mesh.unreadable, hc, Welder.counted]
    · rw [countP_concat, (emit_frame _ _).2.1, ← h.corrected]
      simp [Mesh.shiftedAt, hc, Welder.counted]
    · rw [countP_concat, (emit_frame _ _).2.2.1, ← h.fallback]
      simp [Mesh.fallbackAt, hc, Welder.counted]

/-- The three corners of a triangle are welded one after the other; then the triangle is entered
under its material. -/
theorem weldTriangle_eq (w : Welder) (triangle : Triangle) :
    w.weldTriangle mesh triangle =
      let welded := triangle.places.foldl (Welder.weldCorner mesh) w
      { welded with
        materialIds := welded.materialIds.push triangle.material
        drawRanges := DrawRange.extend welded.drawRanges triangle.material w.indices.size
          welded.indices.size } := rfl

theorem foldl_weldCorner_frame (places : List Nat) (w : Welder) :
    (places.foldl (Welder.weldCorner mesh) w).materialIds = w.materialIds ∧
    (places.foldl (Welder.weldCorner mesh) w).drawRanges = w.drawRanges := by
  induction places generalizing w with
  | nil => exact ⟨rfl, rfl⟩
  | cons place rest ih =>
    have hr := ih (w.weldCorner mesh place)
    have hw := @weldCorner_frame mesh w place
    exact ⟨hr.1.trans hw.1, hr.2.trans hw.2⟩

theorem Seen.foldl_weldCorner {places : List Nat} (h : Seen mesh places w) (more : List Nat) :
    Seen mesh (places ++ more) (more.foldl (Welder.weldCorner mesh) w) := by
  induction more generalizing places w with
  | nil =>
    rw [List.append_nil]
    exact h
  | cons place rest ih =>
    have hr := ih (h.weldCorner place)
    rw [List.append_assoc] at hr
    exact hr

theorem Seen.weldTriangle {places : List Nat} (h : Seen mesh places w) (triangle : Triangle) :
    Seen mesh (places ++ triangle.places) (w.weldTriangle mesh triangle) := by
  have hw := h.foldl_weldCorner triangle.places
  rw [weldTriangle_eq]
  exact ⟨⟨hw.cache, hw.vertices, hw.indices, hw.welded⟩, hw.skipped, hw.corrected, hw.fallback⟩

theorem weld_concat (mesh : Mesh) (triangles : List Triangle) (triangle : Triangle) :
    weld mesh (triangles ++ [triangle]) = (weld mesh triangles).weldTriangle mesh triangle :=
  List.foldl_append

/-- After every run a welder holds what its places say. -/
theorem seen_weld (mesh : Mesh) (triangles : List Triangle) :
    Seen mesh (triangles.flatMap Triangle.places) (weld mesh triangles) := by
  induction triangles using List.reverseRecOn with
  | nil => exact ⟨numbered_empty mesh, rfl, rfl, rfl⟩
  | append_singleton triangles triangle ih =>
    rw [weld_concat, List.flatMap_append, List.flatMap_singleton]
    exact ih.weldTriangle triangle

theorem weld_materialIds (mesh : Mesh) (triangles : List Triangle) :
    (weld mesh triangles).materialIds.toList = triangles.map Triangle.material := by
  induction triangles using List.reverseRecOn with
  | nil => rfl
  | append_singleton triangles triangle ih =>
    rw [weld_concat, weldTriangle_eq, List.map_append, ← ih]
    simp [(foldl_weldCorner_frame _ _).1]

theorem weld_materialIds_size (mesh : Mesh) (triangles : List Triangle) :
    (weld mesh triangles).materialIds.size = triangles.length := by
  rw [← Array.length_toList, weld_materialIds, List.length_map]

end Welder

end RenderMesh
