import RenderMesh.Proofs.Welder.DrawRanges

/-!
# Growth of a welder

Welding only ever appends. A welder that goes on keeps every vertex, index and material where it
stands and every known pair at its offset; of its draw ranges only the last may become longer. What
two runs count apart, one run over the triangles of both counts together, but for the vertices that
they share.
-/

namespace RenderMesh

namespace DrawRange

/-- A range after it may have become longer at its end. -/
structure Lengthens (before after : DrawRange) : Prop where
  material : after.material = before.material
  firstIndex : after.firstIndex = before.firstIndex
  indexCount : before.indexCount ≤ after.indexCount

/-- Ranges after more indices: all but the last stay where they stand, the last may become longer,
and others may follow. -/
def Grow (before after : List DrawRange) : Prop :=
  before = [] ∨ ∃ closed last later more,
    before = closed ++ [last] ∧ after = closed ++ later :: more ∧ last.Lengthens later

theorem Lengthens.refl (range : DrawRange) : range.Lengthens range :=
  ⟨rfl, rfl, Nat.le_refl _⟩

theorem Lengthens.trans {a b c : DrawRange} (first : a.Lengthens b) (second : b.Lengthens c) :
    a.Lengthens c :=
  ⟨second.material.trans first.material, second.firstIndex.trans first.firstIndex,
    Nat.le_trans first.indexCount second.indexCount⟩

theorem grow_append (ranges more : List DrawRange) : Grow ranges (ranges ++ more) := by
  cases ranges using List.reverseRecOn with
  | nil => exact Or.inl rfl
  | append_singleton closed last =>
    exact Or.inr ⟨closed, last, last, more, rfl, List.append_assoc .., .refl last⟩

theorem Grow.refl (ranges : List DrawRange) : Grow ranges ranges := by
  have h := grow_append ranges []
  rw [List.append_nil] at h
  exact h

theorem Grow.trans {before middle after : List DrawRange} (first : Grow before middle)
    (second : Grow middle after) : Grow before after := by
  rcases first with rfl | ⟨closed, last, later, more, rfl, rfl, hlast⟩
  · exact Or.inl rfl
  · rcases second with hnil | ⟨closed', last', later', more', hmiddle, rfl, hlast'⟩
    · simp at hnil
    · -- The range that may grow is the same one, or a later one has been opened since.
      cases more using List.reverseRecOn with
      | nil =>
        obtain ⟨rfl, hsame⟩ := List.append_inj' hmiddle rfl
        obtain rfl := List.singleton_inj.mp hsame
        exact Or.inr ⟨closed, last, later', more', rfl, rfl, hlast.trans hlast'⟩
      | append_singleton more newest =>
        rw [← List.cons_append, ← List.append_assoc] at hmiddle
        obtain ⟨rfl, _⟩ := List.append_inj' hmiddle rfl
        exact Or.inr ⟨closed, last, later, more ++ later' :: more', rfl, by simp, hlast⟩

/-- Entering indices lengthens the last range or opens one after it. -/
theorem grow_extend (ranges : Array DrawRange) (material : UInt32) (first stop : Nat) :
    Grow ranges.toList (extend ranges material first stop).toList := by
  by_cases hn : stop = first
  · rw [hn, extend_self]
    exact .refl _
  rcases back?_cases ranges material with hm | ⟨last, hlast, rfl⟩
  · rw [extend_of_new hm hn, Array.toList_push]
    exact grow_append _ _
  · rw [extend_of_back hlast hn]
    obtain ⟨closed, rfl⟩ := Array.back?_eq_some_iff.mp hlast
    rw [Array.pop_push, Array.toList_push, Array.toList_push]
    exact Or.inr ⟨closed.toList, last, _, [], rfl, rfl, rfl, rfl, Nat.le_add_right _ _⟩

end DrawRange

namespace Welder

/-- A welder that went on from another one. -/
structure Extends (before after : Welder) : Prop where
  known : ∀ (key : UInt64) (offset : UInt32), before.cache[key]? = some offset →
    after.cache[key]? = some offset
  vertices : before.vertices.toList <+: after.vertices.toList
  indices : before.indices.toList <+: after.indices.toList
  materialIds : before.materialIds.toList <+: after.materialIds.toList
  drawRanges : DrawRange.Grow before.drawRanges.toList after.drawRanges.toList

variable {mesh : Mesh}

theorem Extends.refl (w : Welder) : Extends w w :=
  ⟨fun _ _ h => h, List.prefix_rfl, List.prefix_rfl, List.prefix_rfl, .refl _⟩

theorem Extends.trans {before middle after : Welder} (first : Extends before middle)
    (second : Extends middle after) : Extends before after where
  known key offset h := second.known key offset (first.known key offset h)
  vertices := first.vertices.trans second.vertices
  indices := first.indices.trans second.indices
  materialIds := first.materialIds.trans second.materialIds
  drawRanges := first.drawRanges.trans second.drawRanges

theorem extends_emit (w : Welder) (pair : Corner) : Extends w (w.emit mesh pair) := by
  cases hc : w.cache[pair.key]? with
  | some offset =>
    rw [emit_of_cached hc]
    refine ⟨fun _ _ h => h, List.prefix_rfl, ?_, List.prefix_rfl, .refl _⟩
    exact Array.toList_push ▸ List.prefix_append _ _
  | none =>
    rw [emit_of_notCached hc]
    refine ⟨?_, ?_, ?_, List.prefix_rfl, .refl _⟩
    · -- A key that is entered had no offset before.
      intro key offset h
      have hk : pair.key ≠ key := fun hk => by simp [← hk, hc] at h
      rw [Std.HashMap.getElem?_insert, if_neg (by simpa using hk)]
      exact h
    · exact Array.toList_appendList .. ▸ List.prefix_append _ _
    · exact Array.toList_push ▸ List.prefix_append _ _

theorem extends_weldCorner (w : Welder) (place : Nat) : Extends w (w.weldCorner mesh place) := by
  cases hc : mesh.corner? place with
  | none =>
    rw [weldCorner_of_none hc]
    exact ⟨fun _ _ h => h, List.prefix_rfl, List.prefix_rfl, List.prefix_rfl, .refl _⟩
  | some corner =>
    rw [weldCorner_of_some hc]
    have hcounted : Extends w (w.counted (mesh.resolve corner)) :=
      ⟨fun _ _ h => h, List.prefix_rfl, List.prefix_rfl, List.prefix_rfl, .refl _⟩
    exact hcounted.trans (extends_emit _ _)

theorem extends_foldl_weldCorner (w : Welder) (places : List Nat) :
    Extends w (places.foldl (Welder.weldCorner mesh) w) := by
  induction places generalizing w with
  | nil => exact .refl w
  | cons place rest ih => exact (extends_weldCorner w place).trans (ih _)

/-- A triangle is entered after its corners: its material comes last, and its part of the indices
goes to the last range or to a new one. -/
theorem extends_weldTriangle (w : Welder) (triangle : Triangle) :
    Extends w (w.weldTriangle mesh triangle) := by
  have hw := @extends_foldl_weldCorner mesh w triangle.places
  rw [weldTriangle_eq]
  refine hw.trans ⟨fun _ _ h => h, List.prefix_rfl, List.prefix_rfl, ?_, ?_⟩
  · exact Array.toList_push ▸ List.prefix_append _ _
  · exact DrawRange.grow_extend _ _ _ _

theorem extends_foldl_weldTriangle (w : Welder) (triangles : List Triangle) :
    Extends w (triangles.foldl (Welder.weldTriangle mesh) w) := by
  induction triangles generalizing w with
  | nil => exact .refl w
  | cons triangle rest ih => exact (extends_weldTriangle w triangle).trans (ih _)

theorem extends_weld_append (mesh : Mesh) (xs ys : List Triangle) :
    Extends (weld mesh xs) (weld mesh (xs ++ ys)) := by
  rw [weld, weld, List.foldl_append]
  exact extends_foldl_weldTriangle _ ys

/-! ### Two runs and one -/

/-- Whole vertices in the buffer. -/
def vertexCount (w : Welder) : Nat := w.vertices.size / Vertex.stride

/-- What a welder counts that has the triangles of two others. Vertices that both of them have are
counted once, and the corners of the second one that share them are welded instead. -/
structure Combines (first second both : Welder) : Prop where
  skipped : both.skippedCorners = first.skippedCorners + second.skippedCorners
  corrected : both.correctedAttributes = first.correctedAttributes + second.correctedAttributes
  fallback : both.fallbackCorners = first.fallbackCorners + second.fallbackCorners
  vertices_le : both.vertexCount ≤ first.vertexCount + second.vertexCount
  first_le : first.vertexCount ≤ both.vertexCount
  second_le : second.vertexCount ≤ both.vertexCount
  welded : first.weldedCorners + second.weldedCorners ≤ both.weldedCorners

theorem vertexCount_weld (mesh : Mesh) (triangles : List Triangle) :
    (weld mesh triangles).vertexCount = (mesh.distinctPairs triangles).length := by
  rw [vertexCount, weld_vertices_size]
  exact Nat.mul_div_cancel_left _ (by decide)

theorem combines_weld (mesh : Mesh) (xs ys : List Triangle) :
    Combines (weld mesh xs) (weld mesh ys) (weld mesh (xs ++ ys)) := by
  have hxs := seen_weld mesh xs
  have hys := seen_weld mesh ys
  have hboth := seen_weld mesh (xs ++ ys)
  have hpairs := mesh.pairs_append xs ys
  have hle := FirstAppearance.length_eraseDups_append_le (mesh.pairs xs) (mesh.pairs ys)
  rw [← hpairs] at hle
  refine ⟨?_, ?_, ?_, ?_, ?_, ?_, ?_⟩
  · rw [hboth.skipped, hxs.skipped, hys.skipped, List.flatMap_append, List.countP_append]
  · rw [hboth.corrected, hxs.corrected, hys.corrected, List.flatMap_append, List.countP_append]
  · rw [hboth.fallback, hxs.fallback, hys.fallback, List.flatMap_append, List.countP_append]
  · rw [vertexCount_weld, vertexCount_weld, vertexCount_weld]
    exact hle
  · rw [vertexCount_weld, vertexCount_weld]
    exact FirstAppearance.length_eraseDups_le_of_subset (hpairs ▸ List.subset_append_left _ _)
  · rw [vertexCount_weld, vertexCount_weld]
    exact FirstAppearance.length_eraseDups_le_of_subset (hpairs ▸ List.subset_append_right _ _)
  · -- Each corner is welded or brings a vertex, and both runs have the same corners.
    have hlength : (mesh.pairs (xs ++ ys)).length =
        (mesh.pairs xs).length + (mesh.pairs ys).length := by
      rw [hpairs, List.length_append]
    have hw := (numbered_weld mesh (xs ++ ys)).welded
    have hx := (numbered_weld mesh xs).welded
    have hy := (numbered_weld mesh ys).welded
    omega

/-- Welding more triangles only appends: buffers keep what they have, and of the draw ranges the
last one alone may grow. Counters add up, and vertices that come again are welded. -/
theorem weld_append_grows (mesh : Mesh) (xs ys : List Triangle) :
    Extends (weld mesh xs) (weld mesh (xs ++ ys)) ∧
      Combines (weld mesh xs) (weld mesh ys) (weld mesh (xs ++ ys)) :=
  ⟨extends_weld_append mesh xs ys, combines_weld mesh xs ys⟩

end Welder

end RenderMesh
