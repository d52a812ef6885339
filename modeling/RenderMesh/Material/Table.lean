import RenderMesh.Material

/-!
# Material tables

A table keeps one material of each class of similar ones, the first, and says for every input
material where its representative stands.
-/

namespace RenderMesh

/-- Representatives and the place of every input material among them. -/
structure MaterialTable where
  materials : Array Material := #[]
  remap : Array UInt32 := #[]

namespace MaterialTable

/-- How many places a table has. -/
def capacity : Nat := UInt32.size

/-- The next input material: it joins the first representative that it is similar to, else it
becomes one itself. A full table takes no new representative. -/
def insert? (table : MaterialTable) (material : Material) : Option MaterialTable :=
  match table.materials.findIdx? fun kept => kept.similar material with
  | some place => some { table with remap := table.remap.push place.toUInt32 }
  | none =>
    if table.materials.size < capacity then
      some
        { materials := table.materials.push material
          remap := table.remap.push table.materials.size.toUInt32 }
    else none

/-- Input materials one after the other, until one finds no place. -/
def extend (table : MaterialTable) : List Material → MaterialTable
  | [] => table
  | material :: rest =>
    match table.insert? material with
    | some next => next.extend rest
    | none => table

/-- The table of a list of materials (`dedup_materials`). -/
def ofMaterials (materials : Array Material) : MaterialTable := extend {} materials.toList

/-- The place of the representative of an input material (`get`). -/
def get? (table : MaterialTable) (given : UInt32) : Option UInt32 :=
  table.remap[given.toNat]?

/-- How many input materials are represented by another one (`merged_count`). -/
def mergedCount (table : MaterialTable) : Nat := table.remap.size - table.materials.size

end MaterialTable

end RenderMesh
