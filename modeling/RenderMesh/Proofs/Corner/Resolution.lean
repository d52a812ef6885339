import RenderMesh.Proofs.Corner

/-!
# How corners are resolved

A corner is taken as it is, with its attribute read from the upper half, or as the first position
with the first attribute; the indices and the counts decide which. An index that carries its value
in the upper half gives it back whenever the whole word is out of range, so a count that was added
to the word as a tag must fit into the lower half.
-/

namespace RenderMesh

namespace Corner

theorem toNat_shifted (index : UInt32) : (shifted index).toNat = index.toNat / 2 ^ 16 := by
  rw [shifted, UInt32.toNat_shiftRight]
  exact Nat.shiftRight_eq_div_pow _ _

/-! ### The three cases -/

/-- What a resolved corner has to be where there are so many positions and attributes: which case
it is, and which pair of indices each case gives. -/
structure Settles (c : Corner) (positions attributes : Nat) (resolved : ResolvedCorner) : Prop where
  corrected : resolved.corrected = true ↔ attributes ≤ c.attributeIndex.toNat
  direct : resolved.resolution = .direct ↔
    c.positionIndex.toNat < positions ∧ c.attributeIndex.toNat < attributes
  direct_corner : resolved.resolution = .direct → resolved.corner = c
  shifted : resolved.resolution = .corrected ↔
    c.positionIndex.toNat < positions ∧ attributes ≤ c.attributeIndex.toNat ∧
      c.attributeIndex.toNat / 2 ^ 16 < attributes
  shifted_corner : resolved.resolution = .corrected →
    resolved.corner.positionIndex = c.positionIndex ∧
      resolved.corner.attributeIndex.toNat = c.attributeIndex.toNat / 2 ^ 16
  fallback_corner : resolved.resolution = .fallback → resolved.corner = ⟨0, 0⟩

theorem resolve_settles (c : Corner) (positions attributes : Nat) :
    c.Settles positions attributes (c.resolve positions attributes) := by
  obtain ⟨half, hhalf⟩ : ∃ half, c.attributeIndex.toNat / 2 ^ 16 = half := ⟨_, rfl⟩
  have hs : (shifted c.attributeIndex).toNat = half := (toNat_shifted _).trans hhalf
  have hle : half ≤ c.attributeIndex.toNat := hhalf ▸ Nat.div_le_self _ _
  by_cases hp : c.positionIndex.toNat < positions
  · by_cases ha : c.attributeIndex.toNat < attributes
    · rw [resolve_of_direct hp ha]
      constructor <;> simp only [hhalf] <;> simp [hp, ha, Nat.not_le.mpr ha]
    · by_cases hin : half < attributes
      · rw [resolve_of_corrected hp (Nat.not_lt.mp ha) (hs.symm ▸ hin)]
        constructor <;> simp only [hhalf] <;> simp [hp, Nat.not_lt.mp ha, hin, hs]
      · rw [resolve_of_attribute positions (Nat.not_lt.mp ha) (hs.symm ▸ Nat.not_lt.mp hin)]
        constructor <;> simp only [hhalf] <;> simp [hp, Nat.not_lt.mp ha, Nat.not_lt.mp hin]
  · rw [resolve_of_position attributes (Nat.not_lt.mp hp)]
    constructor <;> simp [hp]

/-- The cases exclude each other and leave nothing open. -/
theorem Settles.unique {c : Corner} {positions attributes : Nat} {r s : ResolvedCorner}
    (hr : c.Settles positions attributes r) (hs : c.Settles positions attributes s) : r = s := by
  have hcorrected : r.corrected = s.corrected :=
    Bool.eq_iff_iff.mpr (hr.corrected.trans hs.corrected.symm)
  have hdirect : r.resolution = .direct ↔ s.resolution = .direct :=
    hr.direct.trans hs.direct.symm
  have hshifted : r.resolution = .corrected ↔ s.resolution = .corrected :=
    hr.shifted.trans hs.shifted.symm
  have hpair : r.resolution = s.resolution ∧ r.corner = s.corner := by
    cases h : r.resolution with
    | direct =>
      have h' := hdirect.mp h
      exact ⟨h'.symm, (hr.direct_corner h).trans (hs.direct_corner h').symm⟩
    | corrected =>
      have h' := hshifted.mp h
      obtain ⟨hrp, hra⟩ := hr.shifted_corner h
      obtain ⟨hsp, hsa⟩ := hs.shifted_corner h'
      have hp := hrp.trans hsp.symm
      have ha := UInt32.toNat_inj.mp (hra.trans hsa.symm)
      refine ⟨h'.symm, ?_⟩
      cases hrc : r.corner
      cases hsc : s.corner
      rw [hrc, hsc] at hp ha
      exact congrArg₂ Corner.mk hp ha
    | fallback =>
      have h' : s.resolution = .fallback := by
        cases h' : s.resolution with
        | direct => rw [hdirect.mpr h'] at h; cases h
        | corrected => rw [hshifted.mpr h'] at h; cases h
        | fallback => rfl
      exact ⟨h'.symm, (hr.fallback_corner h).trans (hs.fallback_corner h').symm⟩
  cases r
  cases s
  exact congr (congrArg₂ ResolvedCorner.mk hpair.2 hpair.1) hcorrected

theorem eq_resolve_iff (c : Corner) (positions attributes : Nat) (resolved : ResolvedCorner) :
    resolved = c.resolve positions attributes ↔ c.Settles positions attributes resolved := by
  constructor
  · rintro rfl
    exact resolve_settles c positions attributes
  · intro h
    exact h.unique (resolve_settles c positions attributes)

/-- Resolving gives what the three cases say and nothing else. The pair is in range of what there
is, and resolving it again changes nothing. -/
theorem resolve_exact_idempotent (c : Corner) (positions attributes : Nat) :
    (∀ resolved, resolved = c.resolve positions attributes ↔
      c.Settles positions attributes resolved) ∧
    ((c.resolve positions attributes).corner.resolve positions attributes).corner =
      (c.resolve positions attributes).corner ∧
    (0 < positions → 0 < attributes →
      (c.resolve positions attributes).corner.positionIndex.toNat < positions ∧
      (c.resolve positions attributes).corner.attributeIndex.toNat < attributes ∧
      (c.resolve positions attributes).corner.resolve positions attributes =
        ⟨(c.resolve positions attributes).corner, .direct, false⟩) := by
  refine ⟨c.eq_resolve_iff positions attributes, c.resolve_resolved positions attributes, ?_⟩
  intro hp ha
  exact ⟨c.resolve_positionIndex_lt attributes hp, c.resolve_attributeIndex_lt positions ha,
    c.resolve_resolved_of_pos hp ha⟩

/-- A shifted index that stays out of range falls back, and what it falls back to is in range. -/
theorem resolve_exact_idempotent_overshot :
    (0 < 4 ∧ 0 < 5) ∧
    (⟨⟨0, 0⟩, .fallback, true⟩ : ResolvedCorner) = resolve ⟨1, 0x90005⟩ 4 5 ∧
    ((resolve ⟨1, 0x90005⟩ 4 5).corner.positionIndex.toNat < 4 ∧
      (resolve ⟨1, 0x90005⟩ 4 5).corner.attributeIndex.toNat < 5 ∧
      (resolve ⟨1, 0x90005⟩ 4 5).corner.resolve 4 5 =
        ⟨(resolve ⟨1, 0x90005⟩ 4 5).corner, .direct, false⟩) := by
  have h := resolve_exact_idempotent ⟨1, 0x90005⟩ 4 5
  refine ⟨by decide, (h.1 _).mpr ?_, h.2.2 (by decide) (by decide)⟩
  constructor <;> decide

/-! ### Indices in the upper half -/

variable {positions attributes : Nat} {position : UInt32}

theorem toNat_toUInt32_of_lt {n : Nat} (h : n < UInt32.size) : n.toUInt32.toNat = n :=
  UInt32.toNat_ofNat_of_lt' h

/-- A count and an index above it, shifted: the upper half of the count is added to the index. -/
theorem shifted_count_add (n k : Nat) : (n + k <<< 16) / 2 ^ 16 = k + n / 2 ^ 16 := by
  rw [Nat.shiftLeft_eq, Nat.add_mul_div_right _ _ (by decide), Nat.add_comm]

theorem shifted_half_add (k : Nat) {low : Nat} (h : low < 2 ^ 16) :
    (k <<< 16 + low) / 2 ^ 16 = k := by
  rw [Nat.shiftLeft_eq, Nat.add_comm, Nat.add_mul_div_right _ _ (by decide),
    Nat.div_eq_of_lt h, Nat.zero_add]

/-- An index above the count of attributes comes back exactly if the count leaves the upper half
alone; else it comes back greater, or the corner falls back to another one. -/
theorem resolve_count_tag_iff (hp : position.toNat < positions) {k : Nat} (hk : k < attributes)
    {index : UInt32} (hindex : index.toNat = attributes + k <<< 16) :
    (resolve ⟨position, index⟩ positions attributes).corner.attributeIndex.toNat = k ↔
      attributes < 2 ^ 16 := by
  have hover : attributes ≤ index.toNat := hindex ▸ Nat.le_add_right _ _
  have hshift : (shifted index).toNat = k + attributes / 2 ^ 16 := by
    rw [toNat_shifted, hindex, shifted_count_add]
  have hupper : attributes < 2 ^ 16 ↔ attributes / 2 ^ 16 = 0 := by omega
  rw [hupper]
  by_cases hin : (shifted index).toNat < attributes
  · rw [resolve_of_corrected (c := ⟨position, index⟩) hp hover hin]
    change (shifted index).toNat = k ↔ _
    omega
  · -- The index was not the first one, since the upper half of a count is less than the count.
    rw [resolve_of_attribute (c := ⟨position, index⟩) positions hover (Nat.not_lt.mp hin)]
    have hless : attributes / 2 ^ 16 < attributes :=
      Nat.div_lt_self (Nat.zero_lt_of_lt hk) (by decide)
    change 0 = k ↔ _
    omega

theorem resolve_half_tag_iff (hp : position.toNat < positions) {k low : Nat} (hk : k < attributes)
    (hlow : low < 2 ^ 16) {index : UInt32} (hindex : index.toNat = k <<< 16 + low) :
    ((resolve ⟨position, index⟩ positions attributes).corner.attributeIndex.toNat = k ∧
      (resolve ⟨position, index⟩ positions attributes).resolution = .corrected) ↔
      attributes ≤ k <<< 16 + low := by
  have hshift : (shifted index).toNat = k := by
    rw [toNat_shifted, hindex, shifted_half_add k hlow]
  rw [← hindex]
  constructor
  · rintro ⟨_, hcorrected⟩
    exact ((resolve_settles ⟨position, index⟩ positions attributes).shifted.mp hcorrected).2.1
  · intro hover
    rw [resolve_of_corrected (c := ⟨position, index⟩) hp hover (hshift.symm ▸ hk)]
    exact ⟨hshift, rfl⟩

/-- An index that was tagged with the count of attributes is recovered exactly where the count fits
into the lower half. With any lower half, an index of the upper half is recovered exactly where the
word is out of range. -/
theorem tagged_index_recovered_iff (hp : position.toNat < positions) :
    (∀ k < attributes, attributes + k <<< 16 < UInt32.size →
      ((resolve ⟨position, (attributes + k <<< 16).toUInt32⟩
        positions attributes).corner.attributeIndex.toNat = k ↔ attributes < 2 ^ 16)) ∧
    ∀ k < attributes, k < 2 ^ 16 → ∀ low < 2 ^ 16,
      ((resolve ⟨position, (k <<< 16 + low).toUInt32⟩
          positions attributes).corner.attributeIndex.toNat = k ∧
        (resolve ⟨position, (k <<< 16 + low).toUInt32⟩ positions attributes).resolution =
          .corrected ↔ attributes ≤ k <<< 16 + low) := by
  refine ⟨fun k hk hfits => ?_, fun k hk hhalf low hlow => ?_⟩
  · exact resolve_count_tag_iff hp hk (toNat_toUInt32_of_lt hfits)
  · have hfits : k <<< 16 + low < UInt32.size := by
      rw [Nat.shiftLeft_eq, UInt32.size]
      omega
    exact resolve_half_tag_iff hp hk hlow (toNat_toUInt32_of_lt hfits)

/-- With five attributes a tag is taken off. With 65541 of them the tag of the count adds one to the
index, and a word in range is no tagged index. -/
theorem tagged_index_recovered_iff_counts :
    (1 : UInt32).toNat < 4 ∧
    (resolve ⟨1, (5 + 2 <<< 16).toUInt32⟩ 4 5).corner.attributeIndex.toNat = 2 ∧
    ¬ (resolve ⟨1, (65541 + 2 <<< 16).toUInt32⟩ 4 65541).corner.attributeIndex.toNat = 2 ∧
    ¬ ((resolve ⟨1, (1 <<< 16 + 4).toUInt32⟩ 4 65541).corner.attributeIndex.toNat = 1 ∧
      (resolve ⟨1, (1 <<< 16 + 4).toUInt32⟩ 4 65541).resolution = .corrected) := by
  have hp : (1 : UInt32).toNat < 4 := by decide
  have hfew := (@tagged_index_recovered_iff 4 5 1 hp).1
  have hmany := @tagged_index_recovered_iff 4 65541 1 hp
  refine ⟨hp, (hfew 2 (by decide) (by decide)).mpr (by decide), ?_, ?_⟩
  · exact fun h => absurd ((hmany.1 2 (by decide) (by decide)).mp h) (by decide)
  · exact fun h => absurd ((hmany.2 1 (by decide) (by decide) 4 (by decide)).mp h) (by decide)

end Corner

end RenderMesh
