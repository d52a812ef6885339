import Mathlib.Data.List.Forall2
import Mathlib.Data.List.Nodup
import RenderMesh.Proofs.Kept

/-!
# Collected triangles

Collecting loses no triangle, invents none and repeats none: it makes one record, in the order
given, of every triangle whose material index is in the table and whose corners can be addressed,
however many others stand between them. Sorting only moves the records.
-/

namespace RenderMesh

section

variable {α β : Type} {R : α → β → Prop} {p : α → Bool} {f : α → Option β}

theorem forall₂_filter_filterMap (l : List α) (hsome : ∀ a, p a = true → ∃ b, f a = some b ∧ R a b)
    (hnone : ∀ a, p a = false → f a = none) : List.Forall₂ R (l.filter p) (l.filterMap f) := by
  induction l with
  | nil => exact .nil
  | cons a rest ih =>
    cases hp : p a with
    | true =>
      obtain ⟨b, hb, hR⟩ := hsome a hp
      rw [List.filter_cons_of_pos hp, List.filterMap_cons_some hb]
      exact .cons hR ih
    | false =>
      rw [List.filter_cons_of_neg (by simp [hp]), List.filterMap_cons_none (hnone a hp)]
      exact ih

end

namespace Triangle

variable (indices remap : Array UInt32)

/-- Whether the material index of triangle `t` is in the table and its corners can be addressed. -/
def recorded (t : Nat) : Bool :=
  (indices[t]?.any fun index => index.toNat < remap.size) && 3 * t < UInt32.size

/-- The record of triangle `t`: its first corner and the place of its material. -/
structure RecordOf (t : Nat) (triangle : Triangle) : Prop where
  baseCorner : triangle.baseCorner.toNat = 3 * t
  material : (indices[t]?.bind fun index => remap[index.toNat]?) = some triangle.material

variable {indices remap} {t : Nat}

theorem kept?_eq_some {index : UInt32} {triangle : Triangle} :
    kept? remap t index = some triangle ↔
      triangle.baseCorner.toNat = 3 * t ∧ remap[index.toNat]? = some triangle.material := by
  by_cases ht : 3 * t < UInt32.size
  · have hbase : (3 * t).toUInt32.toNat = 3 * t := Nat.mod_eq_of_lt ht
    rw [kept?, if_pos ht, Option.map_eq_some_iff]
    constructor
    · rintro ⟨material, hm, rfl⟩
      exact ⟨hbase, hm⟩
    · rintro ⟨hb, hm⟩
      refine ⟨triangle.material, hm, ?_⟩
      have hword : (3 * t).toUInt32 = triangle.baseCorner :=
        UInt32.toNat_inj.mp (hbase.trans hb.symm)
      rw [hword]
  · rw [kept?_of_not_lt ht]
    have hlt : triangle.baseCorner.toNat < UInt32.size := triangle.baseCorner.toNat_lt
    exact iff_of_false (Option.some_ne_none triangle).symm fun h => ht (h.1 ▸ hlt)

theorem kept?_iff_recordOf {triangle : Triangle} :
    indices[t]?.bind (kept? remap t) = some triangle ↔ RecordOf indices remap t triangle := by
  rw [Option.bind_eq_some_iff]
  constructor
  · rintro ⟨index, hi, hk⟩
    obtain ⟨hb, hm⟩ := kept?_eq_some.mp hk
    exact ⟨hb, Option.bind_eq_some_iff.mpr ⟨index, hi, hm⟩⟩
  · rintro ⟨hb, hm⟩
    obtain ⟨index, hi, hm⟩ := Option.bind_eq_some_iff.mp hm
    exact ⟨index, hi, kept?_eq_some.mpr ⟨hb, hm⟩⟩

theorem recorded_iff :
    recorded indices remap t = true ↔ ∃ triangle, RecordOf indices remap t triangle := by
  rw [recorded, Bool.and_eq_true, Option.any_eq_true, decide_eq_true_eq]
  constructor
  · rintro ⟨⟨index, hi, hlt⟩, ht⟩
    have hlt := of_decide_eq_true hlt
    refine ⟨⟨(3 * t).toUInt32, remap[index.toNat]⟩, Nat.mod_eq_of_lt ht, ?_⟩
    exact Option.bind_eq_some_iff.mpr ⟨index, hi, Array.getElem?_eq_getElem hlt⟩
  · rintro ⟨triangle, hb, hm⟩
    obtain ⟨index, hi, hm⟩ := Option.bind_eq_some_iff.mp hm
    obtain ⟨hin, _⟩ := Array.getElem?_eq_some_iff.mp hm
    exact ⟨⟨index, hi, decide_eq_true hin⟩, hb ▸ triangle.baseCorner.toNat_lt⟩

variable (indices remap)

theorem forall₂_collect :
    List.Forall₂ (RecordOf indices remap)
      ((List.range indices.size).filter (recorded indices remap)) (collect indices remap) := by
  rw [collect_eq_filterMap]
  apply forall₂_filter_filterMap
  · intro t ht
    obtain ⟨triangle, hr⟩ := recorded_iff.mp ht
    exact ⟨triangle, kept?_iff_recordOf.mpr hr, hr⟩
  · intro t ht
    refine Option.eq_none_iff_forall_ne_some.mpr ?_
    intro triangle hk
    rw [recorded_iff.mpr ⟨triangle, kept?_iff_recordOf.mp hk⟩] at ht
    exact Bool.noConfusion ht

theorem pairwise_collect :
    (collect indices remap).Pairwise fun a b => a.baseCorner < b.baseCorner := by
  rw [collect_eq_filterMap, List.pairwise_filterMap]
  refine List.pairwise_lt_range.imp ?_
  intro s t hst a ha b hb
  have hfirst := (kept?_iff_recordOf.mp ha).baseCorner
  have hlater := (kept?_iff_recordOf.mp hb).baseCorner
  rw [UInt32.lt_iff_toNat_lt]
  omega

theorem nodup_collect : (collect indices remap).Nodup := by
  refine (pairwise_collect indices remap).imp ?_
  rintro a b hlt rfl
  exact UInt32.lt_irrefl _ hlt

theorem three_dvd_baseCorner {triangle : Triangle} (h : triangle ∈ collect indices remap) :
    3 ∣ triangle.baseCorner.toNat := by
  rw [collect_eq_filterMap, List.mem_filterMap] at h
  obtain ⟨t, _, hk⟩ := h
  exact ⟨t, (kept?_iff_recordOf.mp hk).baseCorner⟩

/-- Collecting makes one record of each triangle with a material and corners within reach, by number
in the order given. Sorting groups the records by material; each is there once before and after. -/
theorem collect_records_each_once :
    List.Forall₂ (RecordOf indices remap)
      ((List.range indices.size).filter (recorded indices remap)) (collect indices remap) ∧
    ((collect indices remap).Pairwise fun a b => a.baseCorner < b.baseCorner) ∧
    (∀ triangle ∈ collect indices remap, 3 ∣ triangle.baseCorner.toNat) ∧
    (sort (collect indices remap)).Perm (collect indices remap) ∧
    ((sort (collect indices remap)).Pairwise fun a b => a.material ≤ b.material) ∧
    ∀ triangle ∈ collect indices remap, (sort (collect indices remap)).count triangle = 1 := by
  refine ⟨forall₂_collect indices remap, pairwise_collect indices remap, ?_, sort_perm _,
    pairwise_sort _, ?_⟩
  · intro triangle h
    exact three_dvd_baseCorner indices remap h
  · intro triangle h
    rw [(sort_perm _).count_eq]
    exact List.count_eq_one_of_mem (nodup_collect indices remap) h

end Triangle

end RenderMesh
