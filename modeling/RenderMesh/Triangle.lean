/-!
# Triangles

A triangle that waits to be welded is a place in the corner streams and a material. Triangles
without a valid material are left out; the rest are grouped by material.
-/

namespace RenderMesh

/-- The first of three corners and the place of a material in the table. -/
structure Triangle where
  baseCorner : UInt32
  material : UInt32
deriving DecidableEq, Repr, Inhabited

namespace Triangle

/-- How many corners can be addressed. -/
def reach : Nat := UInt32.size

/-- The triangles from number `t` on, given their material indices. Collecting ends at the first
triangle of a valid material whose corners cannot be addressed. -/
def collectFrom (remap : Array UInt32) : Nat → List UInt32 → List Triangle
  | _, [] => []
  | t, index :: rest =>
    match remap[index.toNat]? with
    | none => collectFrom remap (t + 1) rest
    | some material =>
      if 3 * t < reach then ⟨(3 * t).toUInt32, material⟩ :: collectFrom remap (t + 1) rest
      else []

/-- The triangles of a valid material, all material indices given (`collect_triangles`). -/
def collect (indices remap : Array UInt32) : List Triangle := collectFrom remap 0 indices.toList

/-- Groups triangles by material, each group in the order given. The sort of `sort_triangles` is not
stable and leaves the order in a group open; this stable one gives one of the orders that it may
give. -/
def sort (triangles : List Triangle) : List Triangle :=
  triangles.mergeSort fun a b => a.material ≤ b.material

end Triangle

end RenderMesh
