import RenderMesh.Event
import RenderMesh.Json.Value

/-!
# Comparing packed meshes

Two summaries of packed meshes, of which nothing is known but that they are JSON, agree when their
counts, indices and material numbers are the same integers, their vertex numbers are within a
tolerance and their materials have the same textures. The first difference in a fixed order is
reported; all else in the two values has no part in it.
-/

namespace RenderMesh

open Json (Value)

inductive Side where
  | actual
  | expected
deriving DecidableEq, Repr

def Side.name : Side → String
  | .actual => "actual"
  | .expected => "expected"

inductive Count where
  | vertices
  | indices
  | triangles
  | materials
deriving DecidableEq, Repr

def Count.name : Count → String
  | .vertices => "vertex_count"
  | .indices => "index_count"
  | .triangles => "triangle_count"
  | .materials => "material_count"

inductive Part where
  | vertices
  | indices
  | materialIds
  | materials
deriving DecidableEq, Repr

namespace Part

def name : Part → String
  | .vertices => "vertices"
  | .indices => "indices"
  | .materialIds => "material_ids"
  | .materials => "materials"

def path (part : Part) : String := "mesh." ++ part.name

end Part

/-- Where two summaries are compared. -/
inductive Place where
  | count (which : Count)
  | part (which : Part)
  | entry (which : Part) (number : Nat)
deriving DecidableEq, Repr

def Place.name : Place → String
  | .count which => which.name
  | .part which => which.path
  | .entry .materials number => s!"{Part.materials.path}[{number}].texture"
  | .entry which number => s!"{which.path}[{number}]"

/-- How two summaries differ. -/
inductive Difference where
  | missingValue (side : Side)
  | missingArray (side : Side)
  | lengths (actual expected : Nat)
  | invalid (side : Side)
  | integers (actual expected : Int)
  | numbers (actual expected distance : Double)
  | textures (actual expected : String)
deriving DecidableEq

def Difference.message : Difference → String
  | .missingValue side => s!"missing {side.name} value"
  | .missingArray side => s!"missing {side.name} array"
  | .lengths actual expected => s!"length mismatch: actual={actual}, expected={expected}"
  | .invalid side => s!"invalid {side.name} value"
  | .integers actual expected => s!"actual={actual}, expected={expected}"
  | .numbers actual expected distance =>
    s!"actual={actual.display}, expected={expected.display}, diff={distance.display}"
  | .textures actual expected => s!"actual={actual}, expected={expected}"

structure Mismatch where
  place : Place
  difference : Difference
deriving DecidableEq

namespace Mismatch

def field (m : Mismatch) : String := m.place.name

def detail (m : Mismatch) : String := m.difference.message

def message (m : Mismatch) : String := m.field ++ ": " ++ m.detail

end Mismatch

namespace Compare

/-- The greatest distance of two numbers that is passed over unless another one is given
(`VERTEX_TOLERANCE`). -/
def defaultTolerance : Double := .nearest false 1 1000000

/-! ### Two entries -/

/-- What a side has, or a difference. -/
def need {α : Type} (difference : Difference) : Option α → Except Difference α
  | some a => .ok a
  | none => .error difference

/-- Two integers, each of which `missing` says may be none. -/
def integers (missing : Side → Difference) (actual expected : Value) :
    Except Difference Int := do
  let a ← need (missing .actual) actual.integer?
  let e ← need (missing .expected) expected.integer?
  if a = e then return a else throw (.integers a e)

/-- Two numbers, at most the tolerance apart. -/
def numbers (tolerance : Double) (actual expected : Value) : Except Difference Unit := do
  let a ← need (.invalid .actual) actual.double?
  let e ← need (.invalid .expected) expected.double?
  let apart := a.distance e
  if tolerance.less apart then throw (.numbers a e apart) else return ()

/-- The texture of a material; without one it is empty. -/
def texture (material : Value) : String := (material.get "texture").string?.getD ""

def textures (actual expected : Value) : Except Difference Unit :=
  if texture actual = texture expected then .ok ()
  else .error (.textures (texture actual) (texture expected))

/-! ### Parts of a summary -/

/-- A count of both sides (`int_field`, `compare_i64`). -/
def count (which : Count) (actual expected : Value) : Except Mismatch Int :=
  (integers .missingValue (actual.get which.name) (expected.get which.name)).mapError
    (Mismatch.mk (.count which))

/-- Entries in pairs, the first pair numbered `number`. -/
def entriesFrom (which : Part) (entry : Value → Value → Except Difference Unit) :
    (number : Nat) → (actual expected : List Value) → Except Mismatch Unit
  | number, a :: actual, e :: expected =>
    match entry a e with
    | .ok _ => entriesFrom which entry (number + 1) actual expected
    | .error difference => .error ⟨.entry which number, difference⟩
  | _, _, _ => .ok ()

/-- A list of both sides, its entries compared by `entry`, and its length (`array_field` and
`check_len`, with the loops of `compare_i64_array`, `compare_f64_array` and `compare_materials`). -/
def part (which : Part) (entry : Value → Value → Except Difference Unit)
    (actual expected : Value) : Except Mismatch Nat := do
  let here := Mismatch.mk (.part which)
  let a ← (need (.missingArray .actual) (actual.get which.name).entries?).mapError here
  let e ← (need (.missingArray .expected) (expected.get which.name).entries?).mapError here
  if a.length = e.length then
    entriesFrom which entry 0 a e
    return a.length
  else throw (here (.lengths a.length e.length))

/-! ### Summaries -/

/-- All that is compared, in order, with the event of each agreement. -/
def checks (actual expected : Value) (tolerance : Double) : List (Except Mismatch Event) :=
  let counts := [Count.vertices, .indices, .triangles, .materials].map fun which =>
    (count which actual expected).map (Event.countMatches which.name)
  let mesh := actual.get "mesh"
  let reference := expected.get "mesh"
  let indices := [Part.indices, .materialIds].map fun which =>
    (part which (fun a e => (integers .invalid a e).map fun _ => ()) mesh reference).map
      (Event.entriesMatch which.path)
  counts
    ++ [(part .vertices (numbers tolerance) mesh reference).map fun length =>
          .numbersMatch Part.vertices.path length tolerance]
    ++ indices
    ++ [(part .materials textures mesh reference).map .texturesMatch]

/-- The first fault of a list of checks. -/
def verdict {ε α : Type} : List (Except ε α) → Except ε Unit
  | [] => .ok ()
  | .ok _ :: rest => verdict rest
  | .error fault :: _ => .error fault

/-- The results before the first fault. -/
def passed {ε α : Type} : List (Except ε α) → List α
  | .ok a :: rest => a :: passed rest
  | _ => []

/-- Whether two summaries agree, else the first mismatch (`compare_packed`). -/
def run (actual expected : Value) (tolerance : Double) : Except Mismatch Unit :=
  verdict (checks actual expected tolerance)

def events (actual expected : Value) (tolerance : Double) : List Event :=
  passed (checks actual expected tolerance)

end Compare

end RenderMesh
