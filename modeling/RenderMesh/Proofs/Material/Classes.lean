import Mathlib.Data.List.Basic
import Mathlib.Data.List.Induction
import Mathlib.Data.Nat.Find
import RenderMesh.Material.Table
import RenderMesh.Proofs.FirstAppearance

/-!
# Classes of similar materials

Similarity is symmetric and passes from material to material, so places of a list of materials fall
into classes, and a material that is not similar to itself is a class of its own. The least place of
a class leads it. The first materials of a list, those that no earlier one is similar to, are the
materials of the leaders.
-/

namespace RenderMesh

theorem Binary.equal_trans {f : FloatFormat} {x y z : Binary f} (hxy : x.equal y = true)
    (hyz : y.equal z = true) : x.equal z = true := by
  simp only [Binary.equal, Bool.and_eq_true, beq_iff_eq] at hxy hyz ⊢
  exact ⟨⟨hxy.1.1, hyz.1.2⟩, hxy.2.trans hyz.2⟩

theorem Vec2.equal_trans {a b c : Vec2} (hab : a.equal b = true) (hbc : b.equal c = true) :
    a.equal c = true := by
  simp only [Vec2.equal, Bool.and_eq_true] at hab hbc ⊢
  exact ⟨Binary.equal_trans hab.1 hbc.1, Binary.equal_trans hab.2 hbc.2⟩

theorem Vec2.equal_comm (a b : Vec2) : a.equal b = b.equal a := by
  rw [Vec2.equal, Vec2.equal, Binary.equal_comm a.x, Binary.equal_comm a.y]

namespace Material

theorem similar_comm (a b : Material) : a.similar b = b.similar a := by
  simp only [similar, Binary.equal_comm a.smoothAngle, Binary.equal_comm a.textureAnimFps,
    Binary.equal_comm a.detailObjectScale, Binary.equal_comm a.environmentMappingStrength,
    Binary.equal_comm a.waveMaxAmplitude, Binary.equal_comm a.waveGridSize,
    Vec2.equal_comm a.textureScale, Vec2.equal_comm a.textureAnimMapDir,
    Vec2.equal_comm a.defaultMapping, BEq.comm (a := a.group), BEq.comm (a := a.color),
    BEq.comm (a := a.texture), BEq.comm (a := a.textureAnimMapMode),
    BEq.comm (a := a.detailObject), BEq.comm (a := a.occluder),
    BEq.comm (a := a.environmentMapping), BEq.comm (a := a.waveMode),
    BEq.comm (a := a.waveSpeed), BEq.comm (a := a.ignoreSun)]

theorem similar_trans {a b c : Material} (hab : a.similar b = true) (hbc : b.similar c = true) :
    a.similar c = true := by
  simp only [similar, Bool.and_eq_true, beq_iff_eq] at hab hbc ⊢
  grind [Binary.equal_trans, Vec2.equal_trans]

/-- Whether a material is similar to an earlier one. -/
def repeatsAt (materials : List Material) (place : Nat) : Bool :=
  materials[place]?.any fun material =>
    (materials.take place).any fun earlier => earlier.similar material

/-- The materials that no earlier one is similar to. -/
def firsts (materials : List Material) : List Material :=
  (List.range materials.length).filterMap fun place =>
    if repeatsAt materials place then none else materials[place]?

theorem repeatsAt_concat_of_lt {materials : List Material} (last : Material) {place : Nat}
    (h : place < materials.length) :
    repeatsAt (materials ++ [last]) place = repeatsAt materials place := by
  simp only [repeatsAt, List.getElem?_append_left h, List.take_append_of_le_length (Nat.le_of_lt h)]

theorem repeatsAt_concat_self (materials : List Material) (last : Material) :
    repeatsAt (materials ++ [last]) materials.length =
      materials.any fun earlier => earlier.similar last := by
  simp [repeatsAt]

theorem countP_repeatsAt_concat (materials : List Material) (last : Material) :
    (List.range (materials.length + 1)).countP (repeatsAt (materials ++ [last])) =
      (List.range materials.length).countP (repeatsAt materials) +
        (materials.any fun earlier => earlier.similar last).toNat := by
  have hkept : (List.range materials.length).countP (repeatsAt (materials ++ [last])) =
      (List.range materials.length).countP (repeatsAt materials) := by
    apply List.countP_congr
    intro place hp
    rw [repeatsAt_concat_of_lt last (List.mem_range.mp hp)]
  rw [List.range_succ, List.countP_append, hkept, List.countP_singleton, repeatsAt_concat_self]
  cases materials.any fun earlier => earlier.similar last <;> rfl

theorem firsts_concat (materials : List Material) (last : Material) :
    firsts (materials ++ [last]) = firsts materials ++
      if materials.any fun earlier => earlier.similar last then [] else [last] := by
  have hkept : ((List.range materials.length).filterMap fun place =>
      if repeatsAt (materials ++ [last]) place then none else (materials ++ [last])[place]?) =
        firsts materials := by
    apply List.filterMap_congr
    intro place hp
    have hlt := List.mem_range.mp hp
    rw [repeatsAt_concat_of_lt last hlt, List.getElem?_append_left hlt]
  rw [firsts, List.length_append, List.length_singleton, List.range_succ, List.filterMap_append,
    hkept, List.filterMap_cons, List.filterMap_nil, repeatsAt_concat_self]
  cases materials.any fun earlier => earlier.similar last <;> simp

/-- To look at the representatives is to look at all earlier materials. -/
theorem any_firsts (materials : List Material) (material : Material) :
    ((firsts materials).any fun kept => kept.similar material) =
      materials.any fun earlier => earlier.similar material := by
  induction materials using List.reverseRecOn with
  | nil => rfl
  | append_singleton materials last ih =>
    rw [firsts_concat, List.any_append, List.any_append, ih]
    cases hlast : materials.any fun earlier => earlier.similar last with
    | false => rfl
    | true =>
      -- What is similar to `last` is similar to what `last` is similar to.
      obtain ⟨earlier, he, hs⟩ := List.any_eq_true.mp hlast
      cases hm : last.similar material with
      | false => simp [hm]
      | true =>
        have hany : (materials.any fun earlier => earlier.similar material) = true :=
          List.any_eq_true.mpr ⟨earlier, he, similar_trans hs hm⟩
        simp [hany]

theorem length_firsts (materials : List Material) :
    (firsts materials).length + (List.range materials.length).countP (repeatsAt materials) =
      materials.length := by
  induction materials using List.reverseRecOn with
  | nil => rfl
  | append_singleton materials last ih =>
    rw [firsts_concat, List.length_append, List.length_append, List.length_singleton,
      countP_repeatsAt_concat]
    cases materials.any fun earlier => earlier.similar last <;> simp <;> omega

theorem head_mem_firsts {materials : List Material} {first : Material}
    (h : materials[0]? = some first) : first ∈ firsts materials := by
  refine List.mem_filterMap.mpr ⟨0, ?_, ?_⟩
  · exact List.mem_range.mpr (List.getElem?_eq_some_iff.mp h).1
  · simp [repeatsAt, h]

/-! ### Places of similar materials -/

/-- Whether the materials at two places of a list are similar. -/
def similarAt (materials : List Material) (i j : Nat) : Bool :=
  materials[i]?.any fun a => materials[j]?.any fun b => a.similar b

/-- Places of one class. -/
def Joined (materials : List Material) (i j : Nat) : Prop :=
  i = j ∨ similarAt materials i j = true

instance (materials : List Material) (i j : Nat) : Decidable (Joined materials i j) :=
  inferInstanceAs (Decidable (i = j ∨ similarAt materials i j = true))

variable {materials : List Material}

theorem similarAt_iff {i j : Nat} : similarAt materials i j = true ↔
    ∃ a b, materials[i]? = some a ∧ materials[j]? = some b ∧ a.similar b = true := by
  simp [similarAt, Option.any_eq_true]

theorem similarAt_comm (i j : Nat) : similarAt materials i j = similarAt materials j i := by
  rw [Bool.eq_iff_iff, similarAt_iff, similarAt_iff]
  constructor
  · rintro ⟨a, b, ha, hb, hs⟩
    exact ⟨b, a, hb, ha, b.similar_comm a ▸ hs⟩
  · rintro ⟨a, b, ha, hb, hs⟩
    exact ⟨b, a, hb, ha, b.similar_comm a ▸ hs⟩

theorem similarAt_trans {i j k : Nat} (hij : similarAt materials i j = true)
    (hjk : similarAt materials j k = true) : similarAt materials i k = true := by
  obtain ⟨a, b, ha, hb, hab⟩ := similarAt_iff.mp hij
  obtain ⟨b', c, hb', hc, hbc⟩ := similarAt_iff.mp hjk
  obtain rfl : b = b' := Option.some.inj (hb.symm.trans hb')
  exact similarAt_iff.mpr ⟨a, c, ha, hc, similar_trans hab hbc⟩

theorem similarAt_concat_of_lt (last : Material) {i j : Nat} (hi : i < materials.length)
    (hj : j < materials.length) :
    similarAt (materials ++ [last]) i j = similarAt materials i j := by
  rw [similarAt, similarAt, List.getElem?_append_left hi, List.getElem?_append_left hj]

theorem Joined.symm {i j : Nat} (h : Joined materials i j) : Joined materials j i := by
  rcases h with rfl | h
  · exact Or.inl rfl
  · exact Or.inr (similarAt_comm i j ▸ h)

theorem Joined.trans {i j k : Nat} (hij : Joined materials i j) (hjk : Joined materials j k) :
    Joined materials i k := by
  rcases hij with rfl | hij
  · exact hjk
  · rcases hjk with rfl | hjk
    · exact Or.inr hij
    · exact Or.inr (similarAt_trans hij hjk)

/-! ### Leaders -/

theorem exists_joined (materials : List Material) (i : Nat) : ∃ j, Joined materials j i :=
  ⟨i, Or.inl rfl⟩

/-- The least place of a class. -/
def leader (materials : List Material) (i : Nat) : Nat := Nat.find (exists_joined materials i)

theorem joined_leader (materials : List Material) (i : Nat) :
    Joined materials (leader materials i) i := Nat.find_spec (exists_joined materials i)

theorem leader_le {i j : Nat} (h : Joined materials j i) : leader materials i ≤ j :=
  Nat.find_min' (exists_joined materials i) h

theorem leader_le_self (materials : List Material) (i : Nat) : leader materials i ≤ i :=
  leader_le (Or.inl rfl)

theorem leader_eq_iff {i j : Nat} : leader materials i = leader materials j ↔
    Joined materials i j := by
  constructor
  · intro h
    have hj := joined_leader materials j
    rw [← h] at hj
    exact (joined_leader materials i).symm.trans hj
  · intro h
    exact Nat.le_antisymm (leader_le ((joined_leader materials j).trans h.symm))
      (leader_le ((joined_leader materials i).trans h))

theorem leader_leader (materials : List Material) (i : Nat) :
    leader materials (leader materials i) = leader materials i :=
  leader_eq_iff.mpr (joined_leader materials i)

theorem leader_concat_of_lt (last : Material) {i : Nat} (hi : i < materials.length) :
    leader (materials ++ [last]) i = leader materials i := by
  -- Both leaders are at most `i`, and up to there nothing has changed.
  have hkept : ∀ j ≤ i, Joined (materials ++ [last]) j i ↔ Joined materials j i := by
    intro j hj
    rw [Joined, Joined, similarAt_concat_of_lt last (Nat.lt_of_le_of_lt hj hi) hi]
  apply Nat.le_antisymm
  · exact leader_le ((hkept _ (leader_le_self materials i)).mpr (joined_leader materials i))
  · exact leader_le ((hkept _ (leader_le_self _ i)).mp (joined_leader _ i))

/-- The places that lead their class, in order. -/
def leaders (materials : List Material) : List Nat :=
  (List.range materials.length).filter fun i => leader materials i = i

theorem mem_leaders {i : Nat} :
    i ∈ leaders materials ↔ i < materials.length ∧ leader materials i = i := by
  simp [leaders]

theorem leader_mem_leaders {i : Nat} (hi : i < materials.length) :
    leader materials i ∈ leaders materials :=
  mem_leaders.mpr
    ⟨Nat.lt_of_le_of_lt (leader_le_self materials i) hi, leader_leader materials i⟩

theorem pairwise_leaders (materials : List Material) :
    (leaders materials).Pairwise (· < ·) := List.pairwise_lt_range.filter _

theorem nodup_leaders (materials : List Material) : (leaders materials).Nodup :=
  List.nodup_range.filter _

theorem repeatsAt_eq (materials : List Material) {i : Nat} (hi : i < materials.length) :
    repeatsAt materials i = !decide (leader materials i = i) := by
  rw [Bool.eq_iff_iff, Bool.not_eq_true', decide_eq_false_iff_not]
  have hany : repeatsAt materials i = true ↔ ∃ j < i, similarAt materials j i = true := by
    simp only [repeatsAt, List.getElem?_eq_getElem hi, Option.any_some, List.any_eq_true,
      List.mem_take_iff_getElem, similarAt_iff]
    constructor
    · rintro ⟨a, ⟨j, hj, rfl⟩, hs⟩
      exact ⟨j, by omega, _, _, List.getElem?_eq_getElem _, rfl, hs⟩
    · rintro ⟨j, hj, a, b, ha, hb, hs⟩
      obtain ⟨hlt, rfl⟩ := List.getElem?_eq_some_iff.mp ha
      exact ⟨_, ⟨j, by omega, rfl⟩, Option.some.inj hb ▸ hs⟩
  rw [hany]
  constructor
  · rintro ⟨j, hj, hs⟩ he
    have hle : leader materials i ≤ j := leader_le (Or.inr hs)
    omega
  · intro hne
    have hle := leader_le_self materials i
    rcases joined_leader materials i with he | hs
    · exact absurd he hne
    · exact ⟨_, by omega, hs⟩

theorem leaders_concat (materials : List Material) (last : Material) :
    leaders (materials ++ [last]) = leaders materials ++
      if materials.any fun earlier => earlier.similar last then [] else [materials.length] := by
  have hkept : ((List.range materials.length).filter fun i =>
      leader (materials ++ [last]) i = i) = leaders materials := by
    apply List.filter_congr
    intro i hi
    rw [leader_concat_of_lt last (List.mem_range.mp hi)]
  have hlt : materials.length < (materials ++ [last]).length := by simp
  have hlast := repeatsAt_eq (materials ++ [last]) hlt
  rw [repeatsAt_concat_self] at hlast
  rw [leaders, List.length_append, List.length_singleton, List.range_succ, List.filter_append,
    hkept, List.filter_singleton, hlast]
  cases decide (leader (materials ++ [last]) materials.length = materials.length) <;> rfl

theorem firsts_eq_leaders (materials : List Material) :
    (firsts materials).map some = (leaders materials).map fun i => materials[i]? := by
  rw [firsts, List.map_filterMap, leaders, ← List.filterMap_eq_map, List.filterMap_filter]
  apply List.filterMap_congr
  intro i hi
  have hlt := List.mem_range.mp hi
  rw [repeatsAt_eq materials hlt, List.getElem?_eq_getElem hlt]
  by_cases he : leader materials i = i <;> simp [he]

theorem length_leaders (materials : List Material) :
    (leaders materials).length = (firsts materials).length := by
  have h := congrArg List.length (firsts_eq_leaders materials)
  rw [List.length_map, List.length_map] at h
  exact h.symm

/-- The first materials are those of the leaders. -/
theorem getElem?_firsts (materials : List Material) (place : Nat) :
    (firsts materials)[place]? = (leaders materials)[place]?.bind fun i => materials[i]? := by
  have h := congrArg (fun l => l[place]?) (firsts_eq_leaders materials)
  simp only [List.getElem?_map] at h
  cases hl : (leaders materials)[place]? with
  | none => simpa [hl] using h
  | some i =>
    rw [hl] at h
    cases hf : (firsts materials)[place]? with
    | none => simp [hf] at h
    | some material => simpa [hf] using h

/-! ### Slots -/

/-- Where the leader of a class stands among the leaders. -/
def slot (materials : List Material) (i : Nat) : Nat :=
  (leaders materials).idxOf (leader materials i)

theorem slot_lt {i : Nat} (hi : i < materials.length) :
    slot materials i < (leaders materials).length :=
  List.idxOf_lt_length_of_mem (leader_mem_leaders hi)

theorem getElem?_leaders_slot {i : Nat} (hi : i < materials.length) :
    (leaders materials)[slot materials i]? = some (leader materials i) := by
  rw [List.getElem?_eq_getElem (slot_lt hi)]
  exact congrArg some (List.getElem_idxOf _)

theorem slot_of_getElem? {place i : Nat} (h : (leaders materials)[place]? = some i) :
    slot materials i = place := by
  obtain ⟨hlt, hi⟩ := List.getElem?_eq_some_iff.mp h
  have hleads := (mem_leaders.mp (List.mem_of_getElem? h)).2
  rw [slot, hleads, ← hi]
  exact (nodup_leaders materials).idxOf_getElem place hlt

theorem slot_concat_of_lt (last : Material) {i : Nat} (hi : i < materials.length) :
    slot (materials ++ [last]) i = slot materials i := by
  rw [slot, leader_concat_of_lt last hi, leaders_concat, List.idxOf_append,
    if_pos (leader_mem_leaders hi)]
  rfl

/-- A material that is similar to a first one joins its class. -/
theorem slot_concat_of_similar {last kept : Material} {place : Nat}
    (hk : (firsts materials)[place]? = some kept) (hs : kept.similar last = true) :
    slot (materials ++ [last]) materials.length = place := by
  rw [getElem?_firsts] at hk
  obtain ⟨i, hi, hm⟩ := Option.bind_eq_some_iff.mp hk
  have hlt := (mem_leaders.mp (List.mem_of_getElem? hi)).1
  have hjoined : Joined (materials ++ [last]) materials.length i := by
    refine Joined.symm (Or.inr (similarAt_iff.mpr ⟨kept, last, ?_, by simp, hs⟩))
    rw [List.getElem?_append_left hlt, hm]
  have hsame : slot (materials ++ [last]) materials.length = slot (materials ++ [last]) i := by
    rw [slot, slot, leader_eq_iff.mpr hjoined]
  rw [hsame, slot_concat_of_lt last hlt, slot_of_getElem? hi]

/-- A material that is similar to no first one starts a class. -/
theorem slot_concat_of_new {last : Material}
    (h : (materials.any fun earlier => earlier.similar last) = false) :
    slot (materials ++ [last]) materials.length = (firsts materials).length := by
  have hleaders : (leaders (materials ++ [last]))[(leaders materials).length]? =
      some materials.length := by
    rw [leaders_concat, h]
    simp
  rw [slot_of_getElem? hleaders, length_leaders]

/-- The slots of all places, in order. -/
def slots (materials : List Material) : List Nat :=
  (List.range materials.length).map (slot materials)

theorem slots_concat (materials : List Material) (last : Material) :
    slots (materials ++ [last]) =
      slots materials ++ [slot (materials ++ [last]) materials.length] := by
  have hkept : (List.range materials.length).map (slot (materials ++ [last])) =
      slots materials := by
    apply List.map_congr_left
    intro i hi
    exact slot_concat_of_lt last (List.mem_range.mp hi)
  rw [slots, List.length_append, List.length_singleton, List.range_succ, List.map_append, hkept,
    List.map_singleton]

/-! ### Lists of dissimilar materials -/

/-- First materials are of different classes, so no two of them are similar. -/
theorem similarAt_firsts (materials : List Material) {p q : Nat} (hne : p ≠ q) :
    similarAt (firsts materials) p q = false := by
  rw [Bool.eq_false_iff]
  intro hs
  obtain ⟨a, b, ha, hb, hab⟩ := similarAt_iff.mp hs
  rw [getElem?_firsts] at ha hb
  obtain ⟨i, hi, hai⟩ := Option.bind_eq_some_iff.mp ha
  obtain ⟨j, hj, hbj⟩ := Option.bind_eq_some_iff.mp hb
  have hjoined : Joined materials i j := Or.inr (similarAt_iff.mpr ⟨a, b, hai, hbj, hab⟩)
  have hp := slot_of_getElem? hi
  rw [slot, leader_eq_iff.mpr hjoined] at hp
  exact hne (hp.symm.trans (slot_of_getElem? hj))

theorem leader_of_dissimilar (h : ∀ p q, p ≠ q → similarAt materials p q = false) (i : Nat) :
    leader materials i = i := by
  rcases joined_leader materials i with he | hs
  · exact he
  · by_contra hne
    rw [h _ _ hne] at hs
    cases hs

theorem leaders_of_dissimilar (h : ∀ p q, p ≠ q → similarAt materials p q = false) :
    leaders materials = List.range materials.length := by
  rw [leaders, List.filter_eq_self]
  intro i _
  exact decide_eq_true (leader_of_dissimilar h i)

theorem firsts_of_dissimilar (h : ∀ p q, p ≠ q → similarAt materials p q = false) :
    firsts materials = materials := by
  apply List.ext_getElem?
  intro place
  rw [getElem?_firsts, leaders_of_dissimilar h]
  by_cases hp : place < materials.length
  · rw [List.getElem?_range hp, Option.bind_some]
  · rw [List.getElem?_eq_none (by simpa using hp), List.getElem?_eq_none (by simpa using hp),
      Option.bind_none]

theorem slots_of_dissimilar (h : ∀ p q, p ≠ q → similarAt materials p q = false) :
    slots materials = List.range materials.length := by
  refine (List.map_congr_left ?_).trans (List.map_id _)
  intro i hi
  apply slot_of_getElem?
  rw [leaders_of_dissimilar h]
  exact List.getElem?_range (List.mem_range.mp hi)

end Material

end RenderMesh
