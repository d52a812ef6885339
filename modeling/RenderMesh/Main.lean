import RenderMesh.Tool

/-!
# Command line

The first word names the tool, the other words are its command line.
-/

namespace RenderMesh

/-- The cause of a failure of the file system. -/
def FileFault.ofError (error : IO.Error) : FileFault :=
  match error with
  | .noFileOrDirectory .. => .notFound
  | .inappropriateType _ code _ => if code = 20 then .notDirectory else .isDirectory
  | unknown => .other unknown.toString

namespace Job

def readFile (path : String) : IO (Except FileFault String) := do
  try
    let bytes ← IO.FS.readBinFile path
    match String.fromUTF8? bytes with
    | some text => return .ok text
    | none => return .error .notText
  catch error => return .error (.ofError error)

def writeFile (path text : String) : IO (Except FileFault Unit) := do
  try
    IO.FS.writeFile path text
    return .ok ()
  catch error => return .error (.ofError error)

def putOut : Output → IO Unit
  | .line text => IO.println text
  | .errorLine text => IO.eprintln text
  | .event happened => IO.eprintln happened.printed

/-- A job run on the files of the system. -/
def perform {α : Type} : Job α → IO α
  | .done result => return result
  | .emit output next => do
    putOut output
    next.perform
  | .read path next => do (next (← readFile path)).perform
  | .write path text next => do (next (← writeFile path text)).perform

end Job

end RenderMesh

open RenderMesh in
/-- The code of the named tool; without a tool the command line is not accepted. -/
def main (words : List String) : IO UInt32 := do
  match words with
  | [] => return 2
  | name :: rest =>
    match Tool.ofName? name with
    | some tool => return (← (tool.job rest).perform).toUInt32
    | none => return 2
