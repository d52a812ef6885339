/-!
# Corners

A corner of a triangle names a position and an attribute. Some tools wrote the real attribute
index into the upper half of the word, so an index out of range is read from there; what is then
still out of range becomes the first position with the first attribute.
-/

namespace RenderMesh

structure Corner where
  positionIndex : UInt32
  attributeIndex : UInt32
deriving DecidableEq, Repr, Inhabited

/-- How the indices of a corner were obtained. -/
inductive Resolution where
  /-- Both indices were in range. -/
  | direct
  /-- The attribute index was in range after the shift. -/
  | corrected
  /-- An index stayed out of range. -/
  | fallback
deriving DecidableEq, Repr

/-- A corner whose indices are in range of what there is, and how it came about. -/
structure ResolvedCorner where
  corner : Corner
  resolution : Resolution
  /-- Whether the attribute index was shifted, with success or not. -/
  corrected : Bool
deriving DecidableEq, Repr

namespace Corner

/-- Both indices in one word, the position on top (`composite_key`). -/
def key (c : Corner) : UInt64 := c.positionIndex.toUInt64 <<< 32 ||| c.attributeIndex.toUInt64

/-- The attribute index in the upper half of a word. -/
def shifted (index : UInt32) : UInt32 := index >>> 16

/-- The corner that is used when there are `positions` positions and `attributes` attributes
(`resolve_corner`). -/
def resolve (c : Corner) (positions attributes : Nat) : ResolvedCorner :=
  let corrected : Bool := attributes ≤ c.attributeIndex.toNat
  let index := if corrected then shifted c.attributeIndex else c.attributeIndex
  if c.positionIndex.toNat < positions ∧ index.toNat < attributes then
    ⟨⟨c.positionIndex, index⟩, if corrected then .corrected else .direct, corrected⟩
  else ⟨⟨0, 0⟩, .fallback, corrected⟩

end Corner

end RenderMesh
