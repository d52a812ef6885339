/-!
# Files

A store of files under one directory. Paths are followed from it name by name; what lies outside
of it is directories without names. Reading and writing a path fail for a cause, and a write that
fails changes nothing.
-/

namespace RenderMesh

/-- Why a path is not read or written. -/
inductive FileFault where
  | notFound
  | notDirectory
  | isDirectory
  | nameTooLong
  | nulInPath
  | notText
  | other (text : String)
deriving DecidableEq, Repr

def FileFault.message : FileFault → String
  | .notFound => "No such file or directory (os error 2)"
  | .notDirectory => "Not a directory (os error 20)"
  | .isDirectory => "Is a directory (os error 21)"
  | .nameTooLong => "File name too long (os error 36)"
  | .nulInPath => "file name contained an unexpected NUL byte"
  | .notText => "stream did not contain valid UTF-8"
  | .other text => text

inductive FileNode where
  | text (content : String)
  /-- A file whose bytes are no text. -/
  | binary
  | directory
deriving DecidableEq, Repr

/-- Nodes under their names from the directory of the store on. -/
structure FileStore where
  nodes : List (List String × FileNode) := []

/-- Where a path has led to. -/
inductive Spot where
  | inside (names : List String)
  | outside
deriving DecidableEq, Repr

namespace FileStore

/-- The node at a place; the store itself is a directory. -/
def node? (store : FileStore) : List String → Option FileNode
  | [] => some .directory
  | names => store.nodes.lookup names

/-- The store with a node at a place. -/
def put (store : FileStore) (names : List String) (node : FileNode) : FileStore :=
  ⟨(names, node) :: store.nodes.filter fun entry => entry.1 != names⟩

/-! ### Paths -/

/-- Bytes of the longest name. -/
def longestName : Nat := 255

/-- Bytes of the longest path. -/
def longestPath : Nat := 4095

/-- The parts of a text between slashes. -/
def segments : List Char → List (List Char)
  | [] => [[]]
  | c :: rest =>
    match segments rest with
    | [] => [[c]]
    | first :: others => if c = '/' then [] :: first :: others else (c :: first) :: others

/-- The names of a path, with empty ones where slashes meet an end or one another. -/
def namesOf (path : String) : List String := (segments path.toList).map String.ofList

/-- The fault of a path that is not followed at all. -/
def pathFault? (path : String) : Option FileFault :=
  if path.contains '\x00' then some .nulInPath
  else if path.isEmpty then some .notFound
  else if longestPath < path.utf8ByteSize then some .nameTooLong
  else none

def start (path : String) : Spot := if path.startsWith "/" then .outside else .inside []

/-- Whether names can be followed from a spot. -/
def isDirectory (store : FileStore) : Spot → Bool
  | .inside names => store.node? names = some .directory
  | .outside => true

/-- The spot of a name in a directory, whether it has a node or not. -/
def descend : Spot → String → Spot
  | spot, "" => spot
  | spot, "." => spot
  | .inside [], ".." => .outside
  | .inside names, ".." => .inside names.dropLast
  | .inside names, name => .inside (names ++ [name])
  | .outside, _ => .outside

/-- Whether a name only moves between directories. -/
def isStep (name : String) : Bool := name = "" || name = "." || name = ".."

/-- The spot of a name of which there is a node. -/
def step (store : FileStore) (spot : Spot) (name : String) : Except FileFault Spot :=
  if !store.isDirectory spot then .error .notDirectory
  else if isStep name then .ok (descend spot name)
  else if longestName < name.utf8ByteSize then .error .nameTooLong
  else match descend spot name with
    | .inside names =>
      if (store.node? names).isSome then .ok (.inside names) else .error .notFound
    | .outside => .error .notFound

def walk (store : FileStore) : Spot → List String → Except FileFault Spot
  | spot, [] => .ok spot
  | spot, name :: rest => do store.walk (← store.step spot name) rest

/-! ### Reading and writing -/

def read (store : FileStore) (path : String) : Except FileFault String := do
  if let some fault := pathFault? path then throw fault
  match ← store.walk (start path) (namesOf path) with
  | .outside => throw .isDirectory
  | .inside names =>
    match store.node? names with
    | some (.text content) => return content
    | some .binary => throw .notText
    | some .directory => throw .isDirectory
    | none => throw .notFound

/-- The place that a path names for writing: its directory has to be there, and the last name must
be of a file. -/
def target (store : FileStore) (path : String) : Except FileFault (List String) := do
  if let some fault := pathFault? path then throw fault
  let trailing := (namesOf path).reverse.takeWhile String.isEmpty
  match (namesOf path).reverse.dropWhile String.isEmpty with
  | [] => throw .isDirectory
  | last :: before =>
    let spot ← store.walk (start path) before.reverse
    if !store.isDirectory spot then throw .notDirectory
    else if isStep last || !trailing.isEmpty then throw .isDirectory
    else if longestName < last.utf8ByteSize then throw .nameTooLong
    else match descend spot last with
      | .outside => throw .notFound
      | .inside names =>
        if store.node? names = some .directory then throw .isDirectory else return names

/-- The store after a text was written to a path. -/
def write (store : FileStore) (path text : String) : Except FileFault FileStore :=
  (store.target path).map fun names => store.put names (.text text)

end FileStore

end RenderMesh
