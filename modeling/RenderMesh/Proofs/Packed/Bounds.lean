import Mathlib.Data.List.DropRight
import RenderMesh.Packed
import RenderMesh.Proofs.Number.Order

/-!
# The box around a packed mesh

The box is folded over the vertices, on each axis by itself. A NaN is taken whatever was there, and
whatever comes next is taken in its place, so a side of the box spans the coordinates after the last
NaN, and is NaN itself where that is the last of all. Without NaN it spans all of them, in any
order.
-/

namespace RenderMesh

/-! ### Folds that start over at NaN -/

namespace Single

/-- The one of two numbers with the smaller measure; the second where neither has it or one of them
is NaN. -/
def pick (measure : Single → Int) (a b : Single) : Single :=
  if !a.isNaN && !b.isNaN && measure a < measure b then a else b

theorem least_eq_pick (a b : Single) : Vec3.least a b = pick Binary.key a b := rfl

theorem greatest_eq_pick (a b : Single) : Vec3.greatest a b = pick (fun x => -x.key) a b := by
  have hless : (!a.isNaN && !b.isNaN && decide (-a.key < -b.key)) = b.less a := by
    rw [Binary.less, Bool.and_comm (!a.isNaN), decide_eq_decide.mpr Int.neg_lt_neg_iff]
  rw [Vec3.greatest, pick, hless]

/-- The numbers after the last NaN. -/
def sinceNaN (xs : List Single) : List Single := xs.rtakeWhile fun x => !x.isNaN

theorem sinceNaN_concat_of_nan (xs : List Single) {x : Single} (h : x.isNaN = true) :
    sinceNaN (xs ++ [x]) = [] := List.rtakeWhile_concat_neg _ _ _ (by simp [h])

theorem sinceNaN_concat_of_not_nan (xs : List Single) {x : Single} (h : x.isNaN = false) :
    sinceNaN (xs ++ [x]) = sinceNaN xs ++ [x] := List.rtakeWhile_concat_pos _ _ _ (by simp [h])

theorem sinceNaN_append (xs : List Single) {ys : List Single} (h : ∀ y ∈ ys, y.isNaN = false) :
    sinceNaN (xs ++ ys) = sinceNaN xs ++ ys := by
  induction ys using List.reverseRecOn with
  | nil => rw [List.append_nil, List.append_nil]
  | append_singleton ys y ih =>
    rw [← List.append_assoc, sinceNaN_concat_of_not_nan _ (h y (by simp)),
      ih fun z hz => h z (List.mem_append_left _ hz), List.append_assoc]

theorem sinceNaN_of_not_nan {xs : List Single} (h : ∀ x ∈ xs, x.isNaN = false) :
    sinceNaN xs = xs := sinceNaN_append [] h

variable {measure : Single → Int} {xs : List Single} {m : Single}

/-- What has the smallest measure of the numbers after the last NaN; NaN where there are none. -/
structure Extreme (measure : Single → Int) (xs : List Single) (m : Single) : Prop where
  nan : sinceNaN xs = [] → m.isNaN = true
  mem : sinceNaN xs ≠ [] → m ∈ sinceNaN xs
  le : ∀ x ∈ sinceNaN xs, measure m ≤ measure x

theorem not_nan_of_mem_sinceNaN {x : Single} (h : x ∈ sinceNaN xs) : x.isNaN = false := by
  simpa using List.mem_rtakeWhile_imp h

theorem extreme_singleton (x : Single) : Extreme measure [x] x := by
  cases h : x.isNaN with
  | true =>
    have hnone : sinceNaN [x] = [] := sinceNaN_concat_of_nan [] h
    exact ⟨fun _ => h, fun hne => absurd hnone hne, fun y hy => by rw [hnone] at hy; cases hy⟩
  | false =>
    have hone : sinceNaN [x] = [x] := sinceNaN_concat_of_not_nan [] h
    refine ⟨fun hnil => ?_, fun _ => by rw [hone]; exact List.mem_singleton_self x,
      fun y hy => ?_⟩
    · rw [hone] at hnil
      cases hnil
    · rw [hone, List.mem_singleton] at hy
      exact hy ▸ Int.le_refl _

/-- One step of the fold: after a NaN the new number stands alone, else the better one stays. -/
theorem Extreme.concat (h : Extreme measure xs m) (x : Single) :
    Extreme measure (xs ++ [x]) (pick measure m x) := by
  cases hx : x.isNaN with
  | true =>
    have hnone := sinceNaN_concat_of_nan xs hx
    have hpick : pick measure m x = x := by simp [pick, hx]
    rw [hpick]
    exact ⟨fun _ => hx, fun hne => absurd hnone hne, fun y hy => by rw [hnone] at hy; cases hy⟩
  | false =>
    have hsince := sinceNaN_concat_of_not_nan xs hx
    have hne : sinceNaN (xs ++ [x]) ≠ [] := by rw [hsince]; simp
    by_cases hnil : sinceNaN xs = []
    · have hpick : pick measure m x = x := by simp [pick, h.nan hnil]
      rw [hnil, List.nil_append] at hsince
      refine ⟨fun hn => absurd hn hne, fun _ => by simp [hpick, hsince], fun y hy => ?_⟩
      rw [hsince, List.mem_singleton] at hy
      have heq : measure (pick measure m x) = measure y := by rw [hpick, hy]
      exact Int.le_of_eq heq
    · have hmem := h.mem hnil
      have hm := not_nan_of_mem_sinceNaN hmem
      by_cases hlt : measure m < measure x
      · have hpick : pick measure m x = m := by simp [pick, hm, hx, hlt]
        refine ⟨fun hn => absurd hn hne, fun _ => ?_, fun y hy => ?_⟩
        · rw [hpick, hsince]
          exact List.mem_append_left _ hmem
        · rw [hsince, List.mem_append, List.mem_singleton] at hy
          rw [hpick]
          rcases hy with hy | rfl
          · exact h.le y hy
          · exact Int.le_of_lt hlt
      · have hpick : pick measure m x = x := by simp [pick, hlt]
        refine ⟨fun hn => absurd hn hne, fun _ => by simp [hpick, hsince], fun y hy => ?_⟩
        rw [hsince, List.mem_append, List.mem_singleton] at hy
        rw [hpick]
        rcases hy with hy | rfl
        · exact Int.le_trans (Int.not_lt.mp hlt) (h.le y hy)
        · exact Int.le_refl _

theorem extreme_foldl (measure : Single → Int) (first : Single) (rest : List Single) :
    Extreme measure (first :: rest) (rest.foldl (pick measure) first) := by
  induction rest using List.reverseRecOn with
  | nil => exact extreme_singleton first
  | append_singleton rest last ih =>
    rw [List.foldl_append]
    exact ih.concat last

/-! ### Sides of a box -/

/-- Two numbers of a list that all of it lies between. -/
structure Spans (xs : List Single) (low high : Single) : Prop where
  low_mem : low ∈ xs
  high_mem : high ∈ xs
  between : ∀ x ∈ xs, low.AtMost x ∧ x.AtMost high

/-- The side of a box on an axis with these coordinates. -/
structure BoxSide (xs : List Single) (low high : Single) : Prop where
  clean : (∀ x ∈ xs, x.isNaN = false) → Spans xs low high
  since : ∀ before nan after, xs = before ++ nan :: after → nan.isNaN = true → after ≠ [] →
    (∀ x ∈ after, x.isNaN = false) → Spans after low high
  ends : ∀ before nan, xs = before ++ [nan] → nan.isNaN = true →
    low.isNaN = true ∧ high.isNaN = true

variable {low high : Single}

theorem spans_sinceNaN (hlow : Extreme Binary.key xs low)
    (hhigh : Extreme (fun x => -x.key) xs high) (h : sinceNaN xs ≠ []) :
    Spans (sinceNaN xs) low high := by
  refine ⟨hlow.mem h, hhigh.mem h, fun x hx => ?_⟩
  have hx' := not_nan_of_mem_sinceNaN hx
  rw [Binary.atMost_iff_key (not_nan_of_mem_sinceNaN (hlow.mem h)) hx',
    Binary.atMost_iff_key hx' (not_nan_of_mem_sinceNaN (hhigh.mem h))]
  exact ⟨hlow.le x hx, Int.neg_le_neg_iff.mp (hhigh.le x hx)⟩

theorem boxSide_of_extreme (hne : xs ≠ []) (hlow : Extreme Binary.key xs low)
    (hhigh : Extreme (fun x => -x.key) xs high) : BoxSide xs low high := by
  refine ⟨fun hclean => ?_, ?_, ?_⟩
  · have hspans := spans_sinceNaN hlow hhigh
    rw [sinceNaN_of_not_nan hclean] at hspans
    exact hspans hne
  · rintro before nan after rfl hnan hafter hclean
    have hsince : sinceNaN (before ++ nan :: after) = after := by
      rw [← List.singleton_append, ← List.append_assoc, sinceNaN_append _ hclean,
        sinceNaN_concat_of_nan _ hnan, List.nil_append]
    have hspans := spans_sinceNaN hlow hhigh
    rw [hsince] at hspans
    exact hspans hafter
  · rintro before nan rfl hnan
    have hnone := sinceNaN_concat_of_nan before hnan
    exact ⟨hlow.nan hnone, hhigh.nan hnone⟩

/-- Numbers that span the same list without NaN are equal, up to the sign of zero. -/
theorem Spans.equal {ys : List Single} {low' high' : Single} (h : Spans xs low high)
    (h' : Spans ys low' high') (hclean : ∀ x ∈ xs, x.isNaN = false) (hperm : ys.Perm xs) :
    low.equal low' = true ∧ high.equal high' = true := by
  have hlow := hclean _ h.low_mem
  have hhigh := hclean _ h.high_mem
  have hmem_low := hperm.mem_iff.mp h'.low_mem
  have hmem_high := hperm.mem_iff.mp h'.high_mem
  have hlow' := hclean _ hmem_low
  have hhigh' := hclean _ hmem_high
  rw [Binary.equal_iff_key hlow hlow', Binary.equal_iff_key hhigh hhigh']
  constructor
  · exact Int.le_antisymm
      ((Binary.atMost_iff_key hlow hlow').mp (h.between _ hmem_low).1)
      ((Binary.atMost_iff_key hlow' hlow).mp
        (h'.between _ (hperm.mem_iff.mpr h.low_mem)).1)
  · exact Int.le_antisymm
      ((Binary.atMost_iff_key hhigh hhigh').mp
        (h'.between _ (hperm.mem_iff.mpr h.high_mem)).2)
      ((Binary.atMost_iff_key hhigh' hhigh).mp (h.between _ hmem_high).2)

end Single

/-! ### Coordinates -/

inductive Axis where
  | x
  | y
  | z
deriving DecidableEq, Repr

namespace Axis

/-- The coordinate of a point. -/
def of : Axis → Vec3 → Single
  | .x, point => point.x
  | .y, point => point.y
  | .z, point => point.z

/-- Where the coordinate stands in a vertex. -/
def place : Axis → Nat
  | .x => 0
  | .y => 1
  | .z => 2

theorem place_lt (axis : Axis) : axis.place < Vertex.stride := by
  cases axis <;> decide

theorem of_lower (axis : Axis) (a b : Vec3) :
    axis.of (a.lower b) = Single.pick Binary.key (axis.of a) (axis.of b) := by
  cases axis <;> exact Single.least_eq_pick _ _

theorem of_upper (axis : Axis) (a b : Vec3) :
    axis.of (a.upper b) = Single.pick (fun x => -x.key) (axis.of a) (axis.of b) := by
  cases axis <;> exact Single.greatest_eq_pick _ _

end Axis

namespace PackedMesh

theorem coordinate_lt (packed : PackedMesh) (axis : Axis) {number : Nat}
    (h : number < packed.vertexCount) :
    Vertex.stride * number + axis.place < packed.vertices.size := by
  have hplace := axis.place_lt
  have hle : Vertex.stride * (number + 1) ≤ packed.vertices.size :=
    (Nat.mul_le_mul_left _ h).trans (Nat.mul_div_le _ _)
  rw [Nat.mul_succ] at hle
  omega

/-- The coordinate of a vertex in the buffer. -/
def coordinate (packed : PackedMesh) (axis : Axis) (number : Fin packed.vertexCount) : Single :=
  have := packed.coordinate_lt axis number.isLt
  packed.vertices[Vertex.stride * number + axis.place]

/-- The coordinates of all vertices, in their order. -/
def along (packed : PackedMesh) (axis : Axis) : List Single := .ofFn (packed.coordinate axis)

theorem length_positionsOf (floats : List Single) :
    (positionsOf floats).length = floats.length / Vertex.stride := by
  fun_induction positionsOf floats with
  | case1 x y z _ _ _ _ _ rest ih =>
    rw [List.length_cons, ih]
    simp only [List.length_cons, Vertex.stride]
    omega
  | case2 floats hshort =>
    rcases floats with
      _ | ⟨_, _ | ⟨_, _ | ⟨_, _ | ⟨_, _ | ⟨_, _ | ⟨_, _ | ⟨_, _ | ⟨_, rest⟩⟩⟩⟩⟩⟩⟩⟩
    on_goal 9 => exact absurd rfl (hshort _ _ _ _ _ _ _ _ rest)
    all_goals simp [Vertex.stride]

theorem getElem?_positionsOf (axis : Axis) (floats : List Single) {number : Nat}
    (h : number < floats.length / Vertex.stride) :
    (positionsOf floats)[number]?.map axis.of = floats[Vertex.stride * number + axis.place]? := by
  fun_induction positionsOf floats generalizing number with
  | case1 x y z _ _ _ _ _ rest ih =>
    cases number with
    | zero => cases axis <;> rfl
    | succ number =>
      have hrest : number < rest.length / Vertex.stride := by
        simp only [List.length_cons, Vertex.stride] at h ⊢
        omega
      rw [List.getElem?_cons_succ, ih hrest]
      have hplace : Vertex.stride * (number + 1) + axis.place =
          Vertex.stride * number + axis.place + 8 := by
        simp only [Vertex.stride]
        omega
      rw [hplace]
      rfl
  | case2 floats hshort =>
    rw [← length_positionsOf, positionsOf] at h
    · exact absurd h (Nat.not_lt_zero _)
    · exact hshort

theorem along_eq (packed : PackedMesh) (axis : Axis) :
    packed.along axis = (positionsOf packed.vertices.toList).map axis.of := by
  have hlength : (positionsOf packed.vertices.toList).length = packed.vertexCount :=
    length_positionsOf _
  refine List.ext_getElem? fun number => ?_
  rw [List.getElem?_map]
  by_cases h : number < packed.vertexCount
  · have hplace := packed.coordinate_lt axis h
    rw [getElem?_positionsOf axis _ h, along, List.getElem?_ofFn, dif_pos h, coordinate,
      Array.getElem?_toList, Array.getElem?_eq_getElem hplace]
  · rw [along, List.getElem?_eq_none (by simpa using h),
      List.getElem?_eq_none (by simpa [hlength] using h)]
    rfl

theorem bounds_eq_none_iff (packed : PackedMesh) :
    packed.bounds = none ↔ packed.vertexCount = 0 := by
  have hlength : (positionsOf packed.vertices.toList).length = packed.vertexCount :=
    length_positionsOf _
  rw [← hlength, List.length_eq_zero_iff, bounds]
  cases positionsOf packed.vertices.toList <;> simp

/-- Each axis of the box is folded over the coordinates of that axis. -/
theorem boxSide_bounds {packed : PackedMesh} {low high : Vec3}
    (h : packed.bounds = some (low, high)) (axis : Axis) :
    Single.BoxSide (packed.along axis) (axis.of low) (axis.of high) := by
  rw [bounds] at h
  rw [along_eq]
  cases hp : positionsOf packed.vertices.toList with
  | nil =>
    rw [hp] at h
    cases h
  | cons first rest =>
    rw [hp] at h
    obtain ⟨rfl, rfl⟩ := Prod.mk.inj (Option.some.inj h)
    have hlow : axis.of (rest.foldl Vec3.lower first) =
        (rest.map axis.of).foldl (Single.pick Binary.key) (axis.of first) := by
      rw [List.foldl_map]
      exact (List.foldl_hom axis.of fun a b => (axis.of_lower a b).symm).symm
    have hhigh : axis.of (rest.foldl Vec3.upper first) =
        (rest.map axis.of).foldl (Single.pick fun x => -x.key) (axis.of first) := by
      rw [List.foldl_map]
      exact (List.foldl_hom axis.of fun a b => (axis.of_upper a b).symm).symm
    rw [hlow, hhigh, List.map_cons]
    exact Single.boxSide_of_extreme (List.cons_ne_nil _ _) (Single.extreme_foldl _ _ _)
      (Single.extreme_foldl _ _ _)

/-- There is a box exactly where there is a vertex. Its sides span the coordinates after the last
NaN, and coordinates without NaN have the same sides in any order, up to the sign of zero. -/
theorem bounds_span_since_nan (packed : PackedMesh) :
    (packed.bounds = none ↔ packed.vertexCount = 0) ∧
    ∀ low high, packed.bounds = some (low, high) → ∀ axis : Axis,
      Single.BoxSide (packed.along axis) (axis.of low) (axis.of high) ∧
      ∀ (other : PackedMesh) (otherLow otherHigh : Vec3),
        other.bounds = some (otherLow, otherHigh) →
        (∀ x ∈ packed.along axis, x.isNaN = false) →
        (other.along axis).Perm (packed.along axis) →
        (axis.of low).equal (axis.of otherLow) = true ∧
          (axis.of high).equal (axis.of otherHigh) = true := by
  refine ⟨packed.bounds_eq_none_iff, fun low high h axis => ⟨boxSide_bounds h axis, ?_⟩⟩
  intro other otherLow otherHigh hother hclean hperm
  have hsame := (boxSide_bounds hother axis).clean fun x hx => hclean x (hperm.mem_iff.mp hx)
  exact ((boxSide_bounds h axis).clean hclean).equal hsame hclean hperm

/-- Three vertices and part of a fourth: NaN first, zeros of both signs, and NaN last. -/
def scarred : PackedMesh where
  vertices :=
    #[.nan, .zero, .ofInt 4, .zero, .zero, .zero, .zero, .zero,
      .ofInt 3, .ofBits 0x80000000, .ofInt 1, .zero, .zero, .zero, .zero, .zero,
      .ofInt 2, .ofInt 1, .nan, .zero, .zero, .zero, .zero, .zero,
      .ofInt 9]

/-- The box of the scarred mesh. The part of a vertex has no share in it. -/
def scarredBox : Vec3 × Vec3 :=
  (⟨.ofInt 2, .ofBits 0x80000000, .nan⟩, ⟨.ofInt 3, .ofInt 1, .nan⟩)

theorem bounds_span_since_nan_scarred :
    scarred.bounds = some scarredBox ∧
    Single.Spans [.ofInt 3, .ofInt 2] scarredBox.1.x scarredBox.2.x ∧
    Single.Spans (scarred.along .y) scarredBox.1.y scarredBox.2.y ∧
    (scarredBox.1.z.isNaN = true ∧ scarredBox.2.z.isNaN = true) := by
  have hbounds : scarred.bounds = some scarredBox := by decide +kernel
  have hsides := (bounds_span_since_nan scarred).2 _ _ hbounds
  have hx : scarred.along .x = [] ++ .nan :: [.ofInt 3, .ofInt 2] := by decide +kernel
  have hy : ∀ y ∈ scarred.along .y, y.isNaN = false := by decide +kernel
  have hz : scarred.along .z = [.ofInt 4, .ofInt 1] ++ [.nan] := by decide +kernel
  refine ⟨hbounds, ?_, (hsides .y).1.clean hy, (hsides .z).1.ends _ _ hz (by decide)⟩
  exact (hsides .x).1.since _ _ _ hx (by decide) (by decide) (by decide +kernel)

end PackedMesh

end RenderMesh
