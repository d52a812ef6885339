import RenderMesh.Event
import RenderMesh.File.Store

/-!
# Jobs

What a tool does, step by step: it reads and writes files and it puts out lines and events. A job
is a value; run on a store of files it gives all that it put out and the store afterwards. Which
files there are and why one is not read or written is up to the store.
-/

namespace RenderMesh

/-- Stores of files that are read and written under paths. A write that fails changes nothing. -/
class Files (σ : Type) where
  read : σ → (path : String) → Except FileFault String
  write : σ → (path text : String) → Except FileFault σ

instance : Files FileStore := ⟨FileStore.read, FileStore.write⟩

inductive Output where
  | line (text : String)
  | errorLine (text : String)
  | event (happened : Event)
deriving DecidableEq

/-- Whether an output is one that a reader of a level sees. -/
def Output.visible (level : Level) : Output → Bool
  | .event happened => happened.visible level
  | _ => true

/-- A job that ends in a result. -/
inductive Job (α : Type) where
  | done (result : α)
  | emit (output : Output) (next : Job α)
  | read (path : String) (next : Except FileFault String → Job α)
  | write (path text : String) (next : Except FileFault Unit → Job α)

structure Outcome (σ α : Type) where
  result : α
  outputs : List Output
  store : σ

namespace Job

variable {α β : Type}

/-- A job and what follows on its result. -/
def bind : Job α → (α → Job β) → Job β
  | .done result, f => f result
  | .emit output next, f => .emit output (next.bind f)
  | .read path next, f => .read path fun found => (next found).bind f
  | .write path text next, f => .write path text fun found => (next found).bind f

instance : Monad Job where
  pure := .done
  bind := bind

def emitAll : List Output → Job Unit
  | [] => .done ()
  | output :: rest => .emit output (emitAll rest)

/-- A job without the events that a reader of a level does not see. -/
def restrict (level : Level) : Job α → Job α
  | .done result => .done result
  | .emit output next =>
    if output.visible level then .emit output (next.restrict level) else next.restrict level
  | .read path next => .read path fun found => (next found).restrict level
  | .write path text next => .write path text fun found => (next found).restrict level

def run {σ : Type} [Files σ] : Job α → σ → Outcome σ α
  | .done result, store => ⟨result, [], store⟩
  | .emit output next, store =>
    let after := next.run store
    { after with outputs := output :: after.outputs }
  | .read path next, store => (next (Files.read store path)).run store
  | .write path text next, store =>
    match Files.write store path text with
    | .ok changed => (next (.ok ())).run changed
    | .error fault => (next (.error fault)).run store

end Job

end RenderMesh
