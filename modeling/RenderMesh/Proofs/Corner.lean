import Mathlib.Algebra.Group.Nat.Defs
import RenderMesh.Mesh

/-!
# Corners: keys and bounds

A key says which pair of indices it was made of. A resolved corner is in range of the positions
whenever there are positions, and of the attributes whenever there are attributes. A place of the
corner streams can be read exactly when both streams are longer.
-/

namespace RenderMesh

namespace Corner

theorem toNat_key (c : Corner) :
    c.key.toNat = c.positionIndex.toNat * 2 ^ 32 + c.attributeIndex.toNat := by
  have hp := c.positionIndex.toNat_lt
  have ha := c.attributeIndex.toNat_lt
  have hs : (32 : UInt64).toNat % 64 = 32 := by decide
  simp only [key, UInt64.toNat_or, UInt64.toNat_shiftLeft, UInt32.toNat_toUInt64]
  rw [hs, Nat.shiftLeft_eq, Nat.mod_eq_of_lt (by omega), Nat.mul_comm,
    ← Nat.two_pow_add_eq_or_of_lt ha]

theorem key_injective : Function.Injective key := by
  intro c d h
  have hk : c.key.toNat = d.key.toNat := congrArg UInt64.toNat h
  rw [toNat_key, toNat_key] at hk
  have hc := c.attributeIndex.toNat_lt
  have hd := d.attributeIndex.toNat_lt
  have hp : c.positionIndex = d.positionIndex := UInt32.toNat_inj.mp (by omega)
  have ha : c.attributeIndex = d.attributeIndex := UInt32.toNat_inj.mp (by omega)
  cases c
  cases d
  simp only at hp ha
  rw [hp, ha]

theorem resolve_corner_cases (c : Corner) (positions attributes : Nat) :
    ((c.resolve positions attributes).corner.positionIndex.toNat < positions ∧
      (c.resolve positions attributes).corner.attributeIndex.toNat < attributes) ∨
    (c.resolve positions attributes).corner = ⟨0, 0⟩ := by
  unfold resolve
  extract_lets corrected index
  by_cases h : c.positionIndex.toNat < positions ∧ index.toNat < attributes
  · left
    rw [if_pos h]
    exact h
  · right
    rw [if_neg h]

theorem resolve_positionIndex_lt (c : Corner) {positions : Nat} (attributes : Nat)
    (h : 0 < positions) :
    (c.resolve positions attributes).corner.positionIndex.toNat < positions := by
  rcases c.resolve_corner_cases positions attributes with hr | hr
  · exact hr.1
  · rw [hr]
    exact h

theorem resolve_attributeIndex_lt (c : Corner) (positions : Nat) {attributes : Nat}
    (h : 0 < attributes) :
    (c.resolve positions attributes).corner.attributeIndex.toNat < attributes := by
  rcases c.resolve_corner_cases positions attributes with hr | hr
  · exact hr.2
  · rw [hr]
    exact h

theorem resolve_of_direct {c : Corner} {positions attributes : Nat}
    (hp : c.positionIndex.toNat < positions) (ha : c.attributeIndex.toNat < attributes) :
    c.resolve positions attributes = ⟨c, .direct, false⟩ := by
  simp [resolve, hp, ha, Nat.not_le.mpr ha]

theorem resolve_of_corrected {c : Corner} {positions attributes : Nat}
    (hp : c.positionIndex.toNat < positions) (ha : attributes ≤ c.attributeIndex.toNat)
    (hs : (shifted c.attributeIndex).toNat < attributes) :
    c.resolve positions attributes =
      ⟨⟨c.positionIndex, shifted c.attributeIndex⟩, .corrected, true⟩ := by
  simp [resolve, hp, ha, hs]

theorem resolve_of_position {c : Corner} {positions : Nat} (attributes : Nat)
    (hp : positions ≤ c.positionIndex.toNat) :
    c.resolve positions attributes =
      ⟨⟨0, 0⟩, .fallback, attributes ≤ c.attributeIndex.toNat⟩ := by
  simp [resolve, Nat.not_lt.mpr hp]

theorem resolve_of_attribute {c : Corner} (positions : Nat) {attributes : Nat}
    (ha : attributes ≤ c.attributeIndex.toNat)
    (hs : attributes ≤ (shifted c.attributeIndex).toNat) :
    c.resolve positions attributes = ⟨⟨0, 0⟩, .fallback, true⟩ := by
  simp [resolve, ha, Nat.not_lt.mpr hs]

theorem resolve_corrected (c : Corner) (positions attributes : Nat) :
    (c.resolve positions attributes).corrected =
      decide (attributes ≤ c.attributeIndex.toNat) := by
  unfold resolve
  extract_lets corrected index
  split <;> rfl

/-- A corner falls back when its position is out of range, or its attribute is, shifted or not. -/
theorem resolution_eq_fallback_iff (c : Corner) (positions attributes : Nat) :
    (c.resolve positions attributes).resolution = .fallback ↔
      positions ≤ c.positionIndex.toNat ∨
        (attributes ≤ c.attributeIndex.toNat ∧
          attributes ≤ (shifted c.attributeIndex).toNat) := by
  by_cases hp : positions ≤ c.positionIndex.toNat
  · simp [resolve_of_position attributes hp, hp]
  · have hlt : c.positionIndex.toNat < positions := Nat.lt_of_not_le hp
    by_cases ha : attributes ≤ c.attributeIndex.toNat
    · by_cases hs : attributes ≤ (shifted c.attributeIndex).toNat
      · simp [resolve_of_attribute positions ha hs, ha, hs]
      · simp [resolve_of_corrected hlt ha (Nat.lt_of_not_le hs), hp, hs]
    · simp [resolve_of_direct hlt (Nat.lt_of_not_le ha), hp, ha]

theorem resolve_resolved_of_pos (c : Corner) {positions attributes : Nat} (hp : 0 < positions)
    (ha : 0 < attributes) :
    (c.resolve positions attributes).corner.resolve positions attributes =
      ⟨(c.resolve positions attributes).corner, .direct, false⟩ :=
  resolve_of_direct (c.resolve_positionIndex_lt attributes hp)
    (c.resolve_attributeIndex_lt positions ha)

/-- Resolving twice is resolving once, also where there is nothing to be in range of. -/
theorem resolve_resolved (c : Corner) (positions attributes : Nat) :
    ((c.resolve positions attributes).corner.resolve positions attributes).corner =
      (c.resolve positions attributes).corner := by
  rcases c.resolve_corner_cases positions attributes with ⟨hp, ha⟩ | hr
  · rw [resolve_of_direct hp ha]
  · rw [hr]
    rcases Corner.resolve_corner_cases ⟨0, 0⟩ positions attributes with ⟨hp, ha⟩ | hz
    · rw [resolve_of_direct (Nat.zero_lt_of_lt hp) (Nat.zero_lt_of_lt ha)]
    · exact hz

end Corner

namespace Mesh

theorem corner?_of_lt (mesh : Mesh) {place : Nat} (hp : place < mesh.cornerPositions.size)
    (ha : place < mesh.cornerAttributes.size) :
    mesh.corner? place = some ⟨mesh.cornerPositions[place], mesh.cornerAttributes[place]⟩ := by
  simp only [corner?, Array.getElem?_eq_getElem hp, Array.getElem?_eq_getElem ha]

theorem corner?_eq_none_iff (mesh : Mesh) (place : Nat) :
    mesh.corner? place = none ↔ mesh.cornerCount ≤ place := by
  have hn : ¬place < mesh.cornerCount ↔ mesh.cornerCount ≤ place := Nat.not_lt
  rw [← hn, cornerCount, Nat.lt_min]
  constructor
  · intro h hb
    rw [mesh.corner?_of_lt hb.1 hb.2] at h
    cases h
  · intro h
    simp only [corner?]
    split
    next p a hp ha =>
      exact absurd ⟨(Array.getElem?_eq_some_iff.mp hp).1, (Array.getElem?_eq_some_iff.mp ha).1⟩ h
    next => rfl

theorem resolve_positionIndex_lt (mesh : Mesh) (corner : Corner) (h : 0 < mesh.positions.size) :
    (mesh.resolve corner).corner.positionIndex.toNat < mesh.positions.size :=
  corner.resolve_positionIndex_lt mesh.attributes.size h

theorem resolve_attributeIndex_lt (mesh : Mesh) (corner : Corner)
    (h : 0 < mesh.attributes.size) :
    (mesh.resolve corner).corner.attributeIndex.toNat < mesh.attributes.size :=
  corner.resolve_attributeIndex_lt mesh.positions.size h

end Mesh

end RenderMesh
