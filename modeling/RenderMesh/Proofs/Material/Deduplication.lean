import Mathlib.Algebra.Group.Nat.Defs
import Mathlib.Order.Bounds.Basic
import RenderMesh.Proofs.Material.Merging
import RenderMesh.Proofs.Material.Table

/-!
# Deduplication of materials

A table tells the classes of similar materials apart and nothing else. A material with a NaN is
similar to nothing, so it keeps an entry of its own. Merging all pairs in order and numbering the
labels that come out makes the same table. Representatives are not similar to each other: in a table
of their own each of them stays where it is.
-/

namespace RenderMesh.MaterialTable

/-- The place of a material and the places of the materials that are similar to it. -/
def classAt (materials : Array Material) (i : Nat) : Set Nat :=
  {k | k = i ∨ ∃ (hk : k < materials.size) (hi : i < materials.size),
    materials[k].similar materials[i] = true}

/-- A table of the classes of similar materials, each represented by its first material. -/
structure Classifies (materials : Array Material) (table : MaterialTable) : Prop where
  entries : table.remap.size = materials.size
  classes : ∀ (i j : Nat) (hi : i < materials.size) (hj : j < materials.size),
    table.remap[i]? = table.remap[j]? ↔ i = j ∨ materials[i].similar materials[j] = true
  represented : ∀ (i : Nat) (place : UInt32), table.remap[i]? = some place →
    ∃ first material, IsLeast (classAt materials i) first ∧ materials[first]? = some material ∧
      table.materials[place.toNat]? = some material
  ordered : ∀ (i j : Nat) (p q : UInt32) (first second : Nat), table.remap[i]? = some p →
    table.remap[j]? = some q → IsLeast (classAt materials i) first →
    IsLeast (classAt materials j) second → (p < q ↔ first < second)
  used : ∀ place, place < table.materials.size → ∃ i : Nat, table.remap[i]? = some place.toUInt32
  dissimilar : ∀ (p q : Nat) (hp : p < table.materials.size) (hq : q < table.materials.size),
    p ≠ q → table.materials[p].similar table.materials[q] = false

/-- A table that numbers labels by first appearance. A label is the place of its representative. -/
structure NumbersLabels (labels : List Nat) (materials : Array Material) (table : MaterialTable) :
    Prop where
  remap : table.remap.toList = labels.map fun label => (labels.eraseDups.idxOf label).toUInt32
  materials : table.materials.toList.map some =
    labels.eraseDups.map fun label => materials[label]?

variable {materials : Array Material}

theorem mem_classAt_iff {i k : Nat} :
    k ∈ classAt materials i ↔ Material.Joined materials.toList k i := by
  rw [classAt, Set.mem_ofPred_eq, Material.Joined, Material.similarAt_iff]
  simp only [Array.getElem?_toList, Array.getElem?_eq_some_iff]
  constructor
  · rintro (rfl | ⟨hk, hi, hs⟩)
    · exact Or.inl rfl
    · exact Or.inr ⟨_, _, ⟨hk, rfl⟩, ⟨hi, rfl⟩, hs⟩
  · rintro (rfl | ⟨_, _, ⟨hk, rfl⟩, ⟨hi, rfl⟩, hs⟩)
    · exact Or.inl rfl
    · exact Or.inr ⟨hk, hi, hs⟩

theorem isLeast_leader (materials : Array Material) (i : Nat) :
    IsLeast (classAt materials i) (Material.leader materials.toList i) := by
  constructor
  · exact mem_classAt_iff.mpr (Material.joined_leader _ _)
  · intro k hk
    exact Material.leader_le (mem_classAt_iff.mp hk)

theorem represents_of_lt (few : materials.size < 2 ^ 32) :
    Represents materials.toList (ofMaterials materials) :=
  represents_ofMaterials (Nat.le_of_lt few)

variable {seen : List Material} {table : MaterialTable}

theorem Represents.getElem?_remap (h : Represents seen table) {i : Nat} (hi : i < seen.length) :
    table.remap[i]? = some (Material.slot seen i).toUInt32 := by
  have hslot : (Material.slots seen)[i]? = some (Material.slot seen i) := by
    rw [Material.slots, List.getElem?_map, List.getElem?_range hi, Option.map_some]
  rw [← Array.getElem?_toList, h.remap, List.getElem?_map, hslot, Option.map_some]

theorem Represents.toNat_slot (h : Represents seen table) {i : Nat} (hi : i < seen.length) :
    (Material.slot seen i).toUInt32.toNat = Material.slot seen i :=
  toNat_place (Nat.lt_of_lt_of_le (h.slot_lt hi) h.room)

theorem Represents.slot_of_remap (h : Represents seen table) {i : Nat} {place : UInt32}
    (hp : table.remap[i]? = some place) :
    i < seen.length ∧ place.toNat = Material.slot seen i := by
  obtain ⟨hlt, _⟩ := Array.getElem?_eq_some_iff.mp hp
  rw [h.remap_size] at hlt
  rw [h.getElem?_remap hlt, Option.some.injEq] at hp
  exact ⟨hlt, hp ▸ h.toNat_slot hlt⟩

/-- The entry of a material is the material of its leader. -/
theorem Represents.getElem?_slot (h : Represents seen table) {i : Nat} (hi : i < seen.length) :
    table.materials[Material.slot seen i]? = seen[Material.leader seen i]? := by
  rw [← Array.getElem?_toList, h.materials, Material.getElem?_firsts,
    Material.getElem?_leaders_slot hi, Option.bind_some]

theorem Represents.remap_eq_iff (h : Represents seen table) {i j : Nat} (hi : i < seen.length)
    (hj : j < seen.length) : table.remap[i]? = table.remap[j]? ↔ Material.Joined seen i j := by
  rw [h.getElem?_remap hi, h.getElem?_remap hj, Option.some.injEq, ← UInt32.toNat_inj,
    h.toNat_slot hi, h.toNat_slot hj, ← Material.leader_eq_iff]
  constructor
  · intro hs
    have hleaders := Material.getElem?_leaders_slot hi
    rw [hs, Material.getElem?_leaders_slot hj] at hleaders
    exact (Option.some.inj hleaders).symm
  · intro hl
    rw [Material.slot, Material.slot, hl]

/-- Slots are in order of the leaders, since leaders are numbered in order. -/
theorem slot_lt_slot_iff {i j : Nat} (hi : i < seen.length) (hj : j < seen.length) :
    Material.slot seen i < Material.slot seen j ↔
      Material.leader seen i < Material.leader seen j := by
  have hip := List.getElem?_eq_some_iff.mp (Material.getElem?_leaders_slot hi)
  have hjp := List.getElem?_eq_some_iff.mp (Material.getElem?_leaders_slot hj)
  obtain ⟨hil, hie⟩ := hip
  obtain ⟨hjl, hje⟩ := hjp
  have hmono := List.pairwise_iff_getElem.mp (Material.pairwise_leaders seen)
  rcases Nat.lt_trichotomy (Material.slot seen i) (Material.slot seen j) with hlt | heq | hgt
  · have h := hmono _ _ hil hjl hlt
    omega
  · simp only [heq] at hie
    omega
  · have h := hmono _ _ hjl hil hgt
    omega

theorem Represents.classifies (h : Represents materials.toList table) :
    Classifies materials table := by
  have hlength : materials.toList.length = materials.size := Array.length_toList
  constructor
  · rw [h.remap_size, hlength]
  · intro i j hi hj
    rw [h.remap_eq_iff (hlength ▸ hi) (hlength ▸ hj), Material.Joined, Material.similarAt_iff]
    simp [hi, hj]
  · intro i place hp
    obtain ⟨hi, hplace⟩ := h.slot_of_remap hp
    have hlt : Material.leader materials.toList i < materials.size :=
      hlength ▸ Nat.lt_of_le_of_lt (Material.leader_le_self _ i) hi
    refine ⟨_, materials[Material.leader materials.toList i], isLeast_leader materials i,
      Array.getElem?_eq_getElem hlt, ?_⟩
    rw [hplace, h.getElem?_slot hi, Array.getElem?_toList, Array.getElem?_eq_getElem hlt]
  · intro i j p q first second hp hq hfirst hsecond
    obtain ⟨hi, hpi⟩ := h.slot_of_remap hp
    obtain ⟨hj, hqj⟩ := h.slot_of_remap hq
    rw [hfirst.unique (isLeast_leader materials i), hsecond.unique (isLeast_leader materials j),
      UInt32.lt_iff_toNat_lt, hpi, hqj]
    exact slot_lt_slot_iff hi hj
  · intro place hp
    rw [h.materials_size, ← Material.length_leaders] at hp
    obtain ⟨i, hi⟩ : ∃ i, (Material.leaders materials.toList)[place]? = some i :=
      ⟨_, List.getElem?_eq_getElem hp⟩
    have hlt := (Material.mem_leaders.mp (List.mem_of_getElem? hi)).1
    refine ⟨i, ?_⟩
    rw [h.getElem?_remap hlt, Material.slot_of_getElem? hi]
  · intro p q hp hq hne
    have hd := Material.similarAt_firsts materials.toList hne
    rw [← h.materials] at hd
    simpa [Material.similarAt, hp, hq] using hd

theorem Represents.numbersLabels (h : Represents materials.toList table) :
    NumbersLabels (Material.mergedLabels materials.toList) materials table := by
  constructor
  · rw [h.remap, Material.slots_eq_idxOf_mergedLabels, List.map_map]
    rfl
  · rw [h.materials, Material.firsts_eq_leaders, Material.eraseDups_mergedLabels]
    simp only [Array.getElem?_toList]

/-- Deduplication finds exactly the classes of similar materials, and every class is represented by
its first material. Merging similar materials in pairs finds the same classes. -/
theorem ofMaterials_classifies (materials : Array Material) (few : materials.size < 2 ^ 32) :
    Classifies materials (ofMaterials materials) ∧
    NumbersLabels (Material.mergedLabels materials.toList) materials (ofMaterials materials) :=
  ⟨(represents_of_lt few).classifies, (represents_of_lt few).numbersLabels⟩

/-- Two materials with a NaN, which are equal and not similar, and two that differ by a name and by
the sign of a zero. -/
def oddMaterials : Array Material :=
  #[{ smoothAngle := .nan }, {}, { smoothAngle := .nan },
    { name := "copy", textureAnimFps := { Binary.zero with negative := true } }]

theorem ofMaterials_classifies_odd :
    oddMaterials.size < 2 ^ 32 ∧
    Classifies oddMaterials (ofMaterials oddMaterials) ∧
    NumbersLabels (Material.mergedLabels oddMaterials.toList) oddMaterials
      (ofMaterials oddMaterials) := by
  have few : oddMaterials.size < 2 ^ 32 := by decide
  exact ⟨few, ofMaterials_classifies oddMaterials few⟩

example : (ofMaterials oddMaterials).remap = #[0, 1, 2, 1] := by decide +kernel

/-! ### Tables of representatives -/

theorem Represents.eq (h : Represents seen table) :
    table =
      { materials := (Material.firsts seen).toArray
        remap := ((Material.slots seen).map Nat.toUInt32).toArray } := by
  rw [← h.materials, ← h.remap]

/-- Materials that are not similar to each other all stay where they are. -/
theorem ofMaterials_of_dissimilar
    (h : ∀ p q, p ≠ q → Material.similarAt materials.toList p q = false)
    (room : materials.size ≤ capacity) :
    ofMaterials materials =
      { materials := materials
        remap := ((List.range materials.size).map Nat.toUInt32).toArray } := by
  rw [(represents_ofMaterials room).eq, Material.firsts_of_dissimilar h,
    Material.slots_of_dissimilar h, Array.length_toList]

theorem ofMaterials_dissimilar (materials : Array Material) (p q : Nat) (hne : p ≠ q) :
    Material.similarAt (ofMaterials materials).materials.toList p q = false := by
  obtain ⟨taken, _, hr, _⟩ := ofMaterials_cases materials
  rw [hr.materials]
  exact Material.similarAt_firsts taken hne

theorem ofMaterials_room (materials : Array Material) :
    (ofMaterials materials).materials.size ≤ capacity := by
  obtain ⟨_, _, hr, _⟩ := ofMaterials_cases materials
  exact hr.room

/-- A table of representatives is the table again. -/
theorem ofMaterials_again (materials : Array Material) :
    ofMaterials (ofMaterials materials).materials =
      { materials := (ofMaterials materials).materials
        remap := ((List.range (ofMaterials materials).materials.size).map
          Nat.toUInt32).toArray } :=
  ofMaterials_of_dissimilar (ofMaterials_dissimilar materials) (ofMaterials_room materials)

theorem materials_ofMaterials_again (materials : Array Material) :
    (ofMaterials (ofMaterials materials).materials).materials = (ofMaterials materials).materials :=
  by rw [ofMaterials_again]

/-- In a table of representatives every representative is found where it is, and nothing else. -/
theorem get?_ofMaterials_again (materials : Array Material) (index : UInt32) :
    (ofMaterials (ofMaterials materials).materials).get? index =
      if index.toNat < (ofMaterials materials).materials.size then some index else none := by
  rw [ofMaterials_again, get?]
  by_cases h : index.toNat < (ofMaterials materials).materials.size
  · simp [h]
  · simp [h]

theorem mergedCount_ofMaterials_again (materials : Array Material) :
    (ofMaterials (ofMaterials materials).materials).mergedCount = 0 := by
  rw [ofMaterials_again, mergedCount]
  simp

end RenderMesh.MaterialTable
