import RenderMesh.Packed
import RenderMesh.Triangle
import Std.Data.HashMap

/-!
# Welding

Corners that resolve to the same pair of indices become one vertex. A welder walks triangles,
appends a vertex for every new pair and an index for every corner that can be read.
-/

namespace RenderMesh

/-- The buffers so far, and where the vertex of each pair starts. -/
structure Welder where
  cache : Std.HashMap UInt64 UInt32 := {}
  vertices : Array Single := #[]
  indices : Array UInt32 := #[]
  materialIds : Array UInt32 := #[]
  drawRanges : Array DrawRange := #[]
  skippedCorners : Nat := 0
  correctedAttributes : Nat := 0
  fallbackCorners : Nat := 0
  weldedCorners : Nat := 0

/-- Ranges after indices `first` to `stop` of a material were appended (`extend_draw_ranges`): the
last range grows, or a new one starts. No range is empty. -/
def DrawRange.extend (ranges : Array DrawRange) (material : UInt32) (first stop : Nat) :
    Array DrawRange :=
  if stop = first then ranges
  else match ranges.back? with
    | some last =>
      if last.material = material then
        ranges.pop.push { last with indexCount := last.indexCount + (stop - first) }
      else ranges.push ⟨material, first, stop - first⟩
    | none => ranges.push ⟨material, first, stop - first⟩

namespace Welder

/-- The index of a pair in range, whose vertex is appended when it is new: the lookup of
`weld_corner`. Offsets are words, so they wrap around. -/
def emit (mesh : Mesh) (w : Welder) (corner : Corner) : Welder :=
  match w.cache[corner.key]? with
  | some offset =>
    { w with
      indices := w.indices.push offset
      weldedCorners := w.weldedCorners + 1 }
  | none =>
    let offset := w.vertices.size.toUInt32
    { w with
      cache := w.cache.insert corner.key offset
      vertices := w.vertices ++ (mesh.vertex corner).floats
      indices := w.indices.push offset }

/-- The corner at a place of the corner streams. Beyond their end it is skipped, else it is
resolved, counted and emitted (`weld_corner`). -/
def weldCorner (mesh : Mesh) (w : Welder) (place : Nat) : Welder :=
  match mesh.corner? place with
  | none => { w with skippedCorners := w.skippedCorners + 1 }
  | some corner =>
    let resolved := mesh.resolve corner
    let counted :=
      { w with
        correctedAttributes := w.correctedAttributes + resolved.corrected.toNat
        fallbackCorners := w.fallbackCorners + (resolved.resolution == Resolution.fallback).toNat }
    counted.emit mesh resolved.corner

/-- The three corners of a triangle, its material and its part in the draw ranges
(`weld_triangle`). -/
def weldTriangle (mesh : Mesh) (w : Welder) (triangle : Triangle) : Welder :=
  let first := w.indices.size
  let welded := [0, 1, 2].foldl
    (fun w c => w.weldCorner mesh (triangle.baseCorner.toNat + c)) w
  { welded with
    materialIds := welded.materialIds.push triangle.material
    drawRanges := DrawRange.extend welded.drawRanges triangle.material first welded.indices.size }

def weld (mesh : Mesh) (triangles : List Triangle) : Welder :=
  triangles.foldl (weldTriangle mesh) {}

end Welder

end RenderMesh
