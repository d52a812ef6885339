import RenderMesh.Json.Value

/-!
# Documents

A document is what is written of a known type. Members stand in the order of the type, and numbers
of four bytes keep their own shortest digits. As a value it is sorted and its numbers have eight
bytes.
-/

namespace RenderMesh.Json

inductive Scalar where
  | natural (value : Nat)
  | single (value : Single)
deriving DecidableEq

namespace Scalar

def text : Scalar → List Char
  | .natural value => naturalText value
  | .single value => value.write .compactSingle

def number : Scalar → Number
  | .natural value => .integer value
  | .single value => .double value.widen

end Scalar

/-- What is written of a known type. -/
abbrev Document := Tree Scalar

namespace Document

def ofNat (value : Nat) : Document := .number (.natural value)

/-- A number of four bytes; what is not finite has no JSON form. -/
def ofSingle (value : Single) : Document :=
  if value.isFinite then .number (.single value) else .null

def compact (document : Document) : String :=
  String.ofList (document.text Scalar.text .compact 0)

mutual

def toValue : Document → Value
  | .null => .null
  | .bool value => .bool value
  | .number value => .number value.number
  | .string value => .string value
  | .array entries => .array (entryValues entries)
  | .object members => .object (sortedMembers (memberValues members))

def entryValues : List Document → List Value
  | [] => []
  | entry :: rest => toValue entry :: entryValues rest

def memberValues : List (String × Document) → List (String × Value)
  | [] => []
  | (name, value) :: rest => (name, toValue value) :: memberValues rest

end

end Document

end RenderMesh.Json
