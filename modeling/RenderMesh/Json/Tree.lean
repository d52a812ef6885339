/-!
# JSON trees

A tree of JSON with numbers of some type, and its text in a layout: compact, or spread over lines.
-/

namespace RenderMesh.Json

/-- A JSON tree. Members of an object stand in a list, with their names. -/
inductive Tree (ν : Type) where
  | null
  | bool (value : Bool)
  | number (value : ν)
  | string (value : String)
  | array (entries : List (Tree ν))
  | object (members : List (String × Tree ν))

instance {ν : Type} : Inhabited (Tree ν) := ⟨.null⟩

/-! ### Strings -/

/-- A character inside a string: quotes, backslashes and control characters are escaped. -/
def escapedChar (c : Char) : List Char :=
  if c = '"' || c = '\\' then ['\\', c]
  else if c = '\x08' then ['\\', 'b']
  else if c = '\x0c' then ['\\', 'f']
  else if c = '\n' then ['\\', 'n']
  else if c = '\r' then ['\\', 'r']
  else if c = '\t' then ['\\', 't']
  else if c < ' ' then
    ['\\', 'u', '0', '0', Nat.digitChar (c.toNat / 16), Nat.digitChar (c.toNat % 16)]
  else [c]

def stringText (text : String) : List Char := '"' :: text.toList.flatMap escapedChar ++ ['"']

/-! ### Trees -/

/-- What stands between the parts of a tree: before each entry and closing bracket, as their level
has it, and after the colon of a member. -/
structure Layout where
  line : Nat → List Char
  gap : List Char

namespace Layout

def compact : Layout := ⟨fun _ => [], []⟩

/-- Every entry on a line of its own, two blanks further in than the tree that holds it. -/
def pretty : Layout := ⟨fun level => '\n' :: List.replicate (2 * level) ' ', [' ']⟩

end Layout

mutual

/-- The text of a tree that stands at a level, its numbers written by `number`. -/
def Tree.text {ν : Type} (number : ν → List Char) (layout : Layout) (level : Nat) :
    Tree ν → List Char
  | .null => ['n', 'u', 'l', 'l']
  | .bool true => ['t', 'r', 'u', 'e']
  | .bool false => ['f', 'a', 'l', 's', 'e']
  | .number value => number value
  | .string value => stringText value
  | .array [] => ['[', ']']
  | .array (entry :: rest) =>
    '[' :: layout.line (level + 1) ++ entry.text number layout (level + 1)
      ++ laterEntries number layout level rest
  | .object [] => ['{', '}']
  | .object ((name, value) :: rest) =>
    '{' :: layout.line (level + 1) ++ stringText name ++ ':' :: layout.gap
      ++ value.text number layout (level + 1) ++ laterMembers number layout level rest

/-- The entries after the first, and the bracket that closes them. -/
def laterEntries {ν : Type} (number : ν → List Char) (layout : Layout) (level : Nat) :
    List (Tree ν) → List Char
  | [] => layout.line level ++ [']']
  | entry :: rest =>
    ',' :: layout.line (level + 1) ++ entry.text number layout (level + 1)
      ++ laterEntries number layout level rest

/-- The members after the first, and the brace that closes them. -/
def laterMembers {ν : Type} (number : ν → List Char) (layout : Layout) (level : Nat) :
    List (String × Tree ν) → List Char
  | [] => layout.line level ++ ['}']
  | (name, value) :: rest =>
    ',' :: layout.line (level + 1) ++ stringText name ++ ':' :: layout.gap
      ++ value.text number layout (level + 1) ++ laterMembers number layout level rest

end

end RenderMesh.Json
