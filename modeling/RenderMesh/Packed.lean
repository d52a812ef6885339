import RenderMesh.Vertex

/-!
# Packed meshes

What a renderer takes: one buffer of interleaved vertices, offsets into it as indices, one
material per triangle, and runs of indices that are drawn with one material. It is asked for its
counts, its vertices one by one and its box (`is_empty`, `vertex_count`, `triangle_count`, `vertex`,
`vertex_indices`, `bounds`).
-/

namespace RenderMesh

/-- A run of indices drawn with one material. -/
structure DrawRange where
  material : UInt32
  firstIndex : Nat
  indexCount : Nat
deriving DecidableEq, Repr, Inhabited

/-- A mesh ready for rendering. An index is an offset in numbers, a multiple of the stride. -/
structure PackedMesh where
  vertices : Array Single := #[]
  indices : Array UInt32 := #[]
  materialIds : Array UInt32 := #[]
  materials : Array Material := #[]
  drawRanges : Array DrawRange := #[]

namespace PackedMesh

def isEmpty (packed : PackedMesh) : Bool :=
  packed.vertices.isEmpty && packed.indices.isEmpty && packed.materialIds.isEmpty
    && packed.materials.isEmpty

/-- Whole vertices in the buffer. -/
def vertexCount (packed : PackedMesh) : Nat := packed.vertices.size / Vertex.stride

def triangleCount (packed : PackedMesh) : Nat := packed.materialIds.size

/-- The vertex of a number. No number is too great to ask for. -/
def vertex? (packed : PackedMesh) (number : UInt64) : Option Vertex :=
  let start := number.toNat * Vertex.stride
  if start < UInt64.size then
    Vertex.ofFloats? (packed.vertices.extract start (start + Vertex.stride)).toList
  else none

def vertexIndices (packed : PackedMesh) : Array UInt32 :=
  packed.indices.map fun offset => offset / Vertex.stride.toUInt32

/-- The positions of the whole vertices in a buffer. -/
def positionsOf : List Single → List Vec3
  | x :: y :: z :: _ :: _ :: _ :: _ :: _ :: rest => ⟨x, y, z⟩ :: positionsOf rest
  | _ => []

/-- The box around all positions: its lower and its upper corner. -/
def bounds (packed : PackedMesh) : Option (Vec3 × Vec3) :=
  match positionsOf packed.vertices.toList with
  | [] => none
  | first :: rest => some (rest.foldl Vec3.lower first, rest.foldl Vec3.upper first)

end PackedMesh

/-- What packing repaired or left out. -/
structure PackReport where
  /-- Materials represented by another one. -/
  mergedMaterials : Nat := 0
  /-- Triangles without a valid material. -/
  droppedTriangles : Nat := 0
  /-- Corners beyond the end of a corner stream. -/
  skippedCorners : Nat := 0
  /-- Corners whose attribute index was shifted, with success or not. -/
  correctedAttributes : Nat := 0
  /-- Corners that use the first position and attribute instead. -/
  fallbackCorners : Nat := 0
  /-- Corners that reuse a vertex. -/
  weldedCorners : Nat := 0
deriving DecidableEq, Repr

end RenderMesh
