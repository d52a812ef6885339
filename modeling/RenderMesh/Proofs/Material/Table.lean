import Mathlib.Data.List.Basic
import Mathlib.Data.List.Induction
import RenderMesh.Proofs.Material.Classes

/-!
# Material tables: what they keep

To look at the representatives is to look at all earlier materials, since similarity passes on. A
table therefore keeps the first materials and gives for every material the slot of its class.
-/

namespace RenderMesh

namespace MaterialTable

/-- A table that has taken the materials `seen`. -/
structure Represents (seen : List Material) (table : MaterialTable) : Prop where
  materials : table.materials.toList = Material.firsts seen
  remap : table.remap.toList = (Material.slots seen).map Nat.toUInt32
  room : table.materials.size ≤ capacity

theorem represents_empty : Represents [] {} where
  materials := rfl
  remap := rfl
  room := Nat.zero_le _

theorem toNat_place {place : Nat} (h : place < capacity) : place.toUInt32.toNat = place :=
  Nat.mod_eq_of_lt h

variable {seen : List Material} {table : MaterialTable}

theorem Represents.remap_size (h : Represents seen table) : table.remap.size = seen.length := by
  rw [← Array.length_toList, h.remap, List.length_map, Material.slots, List.length_map,
    List.length_range]

theorem Represents.materials_size (h : Represents seen table) :
    table.materials.size = (Material.firsts seen).length := by
  rw [← Array.length_toList, h.materials]

theorem Represents.slot_lt (h : Represents seen table) {i : Nat} (hi : i < seen.length) :
    Material.slot seen i < table.materials.size := by
  rw [h.materials_size, ← Material.length_leaders]
  exact Material.slot_lt hi

theorem Represents.places (h : Represents seen table) :
    ∀ place ∈ table.remap, place.toNat < table.materials.size := by
  intro place hp
  rw [← Array.mem_toList_iff, h.remap] at hp
  obtain ⟨slot, hs, rfl⟩ := List.mem_map.mp hp
  obtain ⟨i, hi, rfl⟩ := List.mem_map.mp hs
  have hlt := h.slot_lt (List.mem_range.mp hi)
  rw [toNat_place (Nat.lt_of_lt_of_le hlt h.room)]
  exact hlt

theorem Represents.any_kept (h : Represents seen table) (material : Material) :
    (table.materials.any fun kept => kept.similar material) =
      seen.any fun earlier => earlier.similar material := by
  rw [← Material.any_firsts, ← h.materials, Array.any_toList]

theorem insert?_of_similar {material : Material} {place : Nat}
    (h : (table.materials.findIdx? fun kept => kept.similar material) = some place) :
    table.insert? material = some { table with remap := table.remap.push place.toUInt32 } := by
  rw [MaterialTable.insert?, h]

theorem insert?_of_new {material : Material}
    (h : (table.materials.findIdx? fun kept => kept.similar material) = none)
    (room : table.materials.size < capacity) :
    table.insert? material =
      some
        { materials := table.materials.push material
          remap := table.remap.push table.materials.size.toUInt32 } := by
  rw [MaterialTable.insert?, h]
  exact if_pos room

theorem insert?_of_full {material : Material}
    (h : (table.materials.findIdx? fun kept => kept.similar material) = none)
    (full : ¬table.materials.size < capacity) : table.insert? material = none := by
  rw [MaterialTable.insert?, h]
  exact if_neg full

theorem Represents.join (h : Represents seen table) {material : Material} {place : Nat}
    (hfind : (table.materials.findIdx? fun kept => kept.similar material) = some place) :
    Represents (seen ++ [material]) { table with remap := table.remap.push place.toUInt32 } := by
  obtain ⟨hplace, hs, _⟩ := Array.findIdx?_eq_some_iff_getElem.mp hfind
  have hkept : (seen.any fun earlier => earlier.similar material) = true := by
    rw [← h.any_kept]
    exact Array.any_eq_true.mpr ⟨place, hplace, hs⟩
  have hfirst : (Material.firsts seen)[place]? = some table.materials[place] := by
    rw [← h.materials, Array.getElem?_toList, Array.getElem?_eq_getElem hplace]
  constructor
  · rw [Material.firsts_concat, hkept, if_pos rfl, List.append_nil]
    exact h.materials
  · rw [Material.slots_concat, Material.slot_concat_of_similar hfirst hs, List.map_append,
      ← h.remap]
    exact Array.toList_push
  · exact h.room

theorem Represents.push (h : Represents seen table) {material : Material}
    (hfind : (table.materials.findIdx? fun kept => kept.similar material) = none)
    (room : table.materials.size < capacity) :
    Represents (seen ++ [material])
      { materials := table.materials.push material
        remap := table.remap.push table.materials.size.toUInt32 } := by
  have hnone : (seen.any fun earlier => earlier.similar material) = false := by
    rw [← h.any_kept, Array.any_eq_false]
    intro place hplace
    rw [Array.findIdx?_eq_none_iff.mp hfind _ (Array.getElem_mem hplace)]
    exact Bool.false_ne_true
  constructor
  · rw [Material.firsts_concat, hnone, ← h.materials]
    exact Array.toList_push
  · rw [Material.slots_concat, Material.slot_concat_of_new hnone, ← h.materials_size,
      List.map_append, ← h.remap]
    exact Array.toList_push
  · rw [Array.size_push]
    exact room

/-- A table takes the next material, unless it is full. -/
theorem Represents.insert? (h : Represents seen table) (material : Material) :
    (∃ next, table.insert? material = some next ∧ Represents (seen ++ [material]) next) ∨
      table.insert? material = none ∧ table.materials.size = capacity := by
  cases hfind : table.materials.findIdx? fun kept => kept.similar material with
  | some place => exact Or.inl ⟨_, insert?_of_similar hfind, h.join hfind⟩
  | none =>
    by_cases room : table.materials.size < capacity
    · exact Or.inl ⟨_, insert?_of_new hfind room, h.push hfind room⟩
    · exact Or.inr ⟨insert?_of_full hfind room, Nat.le_antisymm h.room (Nat.not_lt.mp room)⟩

/-- A table takes all materials, unless it is full before. -/
theorem Represents.extend (h : Represents seen table) (given : List Material) :
    ∃ taken, taken <+: given ∧ Represents (seen ++ taken) (table.extend given) ∧
      (taken = given ∨ (table.extend given).materials.size = capacity) := by
  -- What the table has seen grows by one material each time, so the induction is over all tables.
  induction given generalizing seen table with
  | nil =>
    refine ⟨[], List.prefix_rfl, ?_, Or.inl rfl⟩
    rw [List.append_nil]
    exact h
  | cons material rest ih =>
    rw [MaterialTable.extend]
    rcases h.insert? material with ⟨next, hnext, hr⟩ | ⟨hnone, hfull⟩
    · obtain ⟨taken, hprefix, htaken, hall⟩ := ih hr
      rw [List.append_assoc, List.singleton_append] at htaken
      rw [hnext]
      refine ⟨material :: taken, List.cons_prefix_cons.mpr ⟨rfl, hprefix⟩, htaken, ?_⟩
      exact hall.imp (congrArg _) id
    · rw [hnone]
      refine ⟨[], List.nil_prefix, ?_, Or.inr hfull⟩
      rw [List.append_nil]
      exact h

theorem ofMaterials_cases (materials : Array Material) :
    ∃ taken, taken <+: materials.toList ∧ Represents taken (ofMaterials materials) ∧
      (taken = materials.toList ∨ (ofMaterials materials).materials.size = capacity) :=
  represents_empty.extend materials.toList

theorem ofMaterials_places (materials : Array Material) :
    ∀ place ∈ (ofMaterials materials).remap,
      place.toNat < (ofMaterials materials).materials.size := by
  obtain ⟨_, _, hr, _⟩ := ofMaterials_cases materials
  exact hr.places

theorem represents_ofMaterials {materials : Array Material} (h : materials.size ≤ capacity) :
    Represents materials.toList (ofMaterials materials) := by
  obtain ⟨taken, hprefix, hr, hall⟩ := ofMaterials_cases materials
  have htaken : taken = materials.toList := by
    rcases hall with hall | hfull
    · exact hall
    · -- A full table has taken at least as many materials as it has places.
      have hcount := Material.length_firsts taken
      have hkept := hr.materials_size
      have hgiven : materials.toList.length = materials.size := Array.length_toList
      exact hprefix.eq_of_length_le (by omega)
  rw [← htaken]
  exact hr

theorem ofMaterials_materials_pos {materials : Array Material} (h : 0 < materials.size) :
    0 < (ofMaterials materials).materials.size := by
  obtain ⟨taken, _, hr, rfl | hfull⟩ := ofMaterials_cases materials
  · have hfirst : materials[0] ∈ Material.firsts materials.toList :=
      Material.head_mem_firsts (by simp [h])
    rw [← hr.materials] at hfirst
    exact Array.size_pos_of_mem (Array.mem_toList_iff.mp hfirst)
  · rw [hfull]
    exact Nat.two_pow_pos 32

theorem mergedCount_ofMaterials {materials : Array Material} (h : materials.size ≤ capacity) :
    (ofMaterials materials).mergedCount =
      (List.range materials.size).countP (Material.repeatsAt materials.toList) := by
  have hr := represents_ofMaterials h
  have hcount := Material.length_firsts materials.toList
  have hsize := hr.remap_size
  rw [← hr.materials] at hcount
  simp only [Array.length_toList] at hcount hsize
  rw [mergedCount]
  omega

end MaterialTable

end RenderMesh
