import RenderMesh.Json.Number
import RenderMesh.Json.Sequence
import RenderMesh.Json.Tree

/-!
# JSON values

A value is what a text of unknown shape holds. Members of an object stand in ascending order of
their names, each name once; of equal names the last counts.
-/

namespace RenderMesh.Json

abbrev Value := Tree Number

/-- A member put in its place; it replaces one of the same name. -/
def insertMember {α : Type} (name : String) (value : α) : List (String × α) → List (String × α)
  | [] => [(name, value)]
  | (other, old) :: rest =>
    if name < other then (name, value) :: (other, old) :: rest
    else if name = other then (name, value) :: rest
    else (other, old) :: insertMember name value rest

/-- Members in order of their names, the last of each name. -/
def sortedMembers {α : Type} (members : List (String × α)) : List (String × α) :=
  members.foldl (fun sorted (name, value) => insertMember name value sorted) []

namespace Tree

variable {ν : Type}

/-- The member of a name; null where there is none. -/
def get (tree : Tree ν) (name : String) : Tree ν :=
  match tree with
  | .object members => (members.lookup name).getD .null
  | _ => .null

def entries? : Tree ν → Option (List (Tree ν))
  | .array entries => some entries
  | _ => none

def string? : Tree ν → Option String
  | .string value => some value
  | _ => none

end Tree

namespace Value

/-- An integer in the range of a signed word. -/
def integer? : Value → Option Int
  | .number (.integer value) =>
    if Int64.minValue.toInt ≤ value ∧ value ≤ Int64.maxValue.toInt then some value else none
  | _ => none

/-- A number to the nearest of eight bytes. -/
def double? : Value → Option Double
  | .number (.integer value) => some (.ofInt value)
  | .number (.double value) => some value
  | _ => none

/-! ### Text -/

def compact (value : Value) : String := String.ofList (value.text Number.text .compact 0)

def pretty (value : Value) : String := String.ofList (value.text Number.text .pretty 0)

/-! ### Reading -/

/-- A value whose entries are read by `inner`; without it there are none to be. -/
def scanWith (inner : Option (Scanner Value)) : Scanner Value := fun cs =>
  match skipBlanks cs with
  | [] => .error (.unfinished .value)
  | 'n' :: rest => (word ['u', 'l', 'l'] rest).map fun (_, rest) => (.null, rest)
  | 't' :: rest => (word ['r', 'u', 'e'] rest).map fun (_, rest) => (.bool true, rest)
  | 'f' :: rest => (word ['a', 'l', 's', 'e'] rest).map fun (_, rest) => (.bool false, rest)
  | '"' :: rest => (stringRest rest).map fun (value, rest) => (.string value, rest)
  | '[' :: rest =>
    match inner with
    | none => .error .tooDeep
    | some inner => (entries inner rest).map fun (found, rest) => (.array found, rest)
  | '{' :: rest =>
    match inner with
    | none => .error .tooDeep
    | some inner =>
      (membersWithin inner rest true [] rest).map fun (found, rest) =>
        (.object (sortedMembers found), rest)
  | c :: rest =>
    if startsLiteral c then (number (c :: rest)).map fun (value, rest) => (.number value, rest)
    else .error .expectedValue

/-- A value of at most `depth` nested lists and objects. -/
def scanWithin : (depth : Nat) → Scanner Value
  | 0 => scanWith none
  | depth + 1 => scanWith (some (scanWithin depth))

/-- How deep lists and objects may be nested. -/
def depthLimit : Nat := 127

def read (text : String) : Except Fault Value := readWhole (scanWithin depthLimit) text

end Value

end RenderMesh.Json
