import RenderMesh.File.Exchange
import RenderMesh.Proofs.File.Store
import RenderMesh.Proofs.Json.Value

/-!
# Steps of an exchange

What an exchange comes to is its result and the store afterwards; what it puts out on the way
decides neither. After a step that succeeds the rest goes on with its result and its store, and
after a fault nothing follows.
-/

namespace RenderMesh

open Json (Value)

/-- The line that an output prints. -/
def Output.line? : Output → Option String
  | .line text => some text
  | _ => none

/-- The lines that were printed. -/
def Outcome.lines {σ α : Type} (outcome : Outcome σ α) : List String :=
  outcome.outputs.filterMap Output.line?

namespace Job

variable {σ α β : Type} [Files σ]

/-- The result of a job and the store afterwards. -/
def ends (job : Job α) (store : σ) : α × σ :=
  ((job.run store).result, (job.run store).store)

theorem ends_bind (job : Job α) (next : α → Job β) (store : σ) :
    (job.bind next).ends store = (next (job.ends store).1).ends (job.ends store).2 := by
  induction job generalizing store with
  | done result => rfl
  | emit output job ih => exact ih store
  | read path job ih => exact ih (Files.read store path) store
  | write path text job ih =>
    cases hw : Files.write store path text with
    | ok changed =>
      have hrest := ih (.ok ()) changed
      simp only [ends, Job.bind, run, hw] at hrest ⊢
      exact hrest
    | error fault =>
      have hrest := ih (.error fault) store
      simp only [ends, Job.bind, run, hw] at hrest ⊢
      exact hrest

theorem ends_emitAll (outputs : List Output) (store : σ) :
    (emitAll outputs).ends store = ((), store) := by
  induction outputs with
  | nil => rfl
  | cons output rest ih => exact ih

/-- The lines that a job prints. -/
def lines (job : Job α) (store : σ) : List String := (job.run store).lines

theorem lines_emit (output : Output) (job : Job α) (store : σ) :
    (emit output job).lines store = output.line?.toList ++ job.lines store := by
  rw [lines, run, Outcome.lines, List.filterMap_cons]
  cases output.line? <;> rfl

theorem lines_write (path text : String) (next : Except FileFault Unit → Job α)
    (store : σ) : (write path text next).lines store =
      match Files.write store path text with
      | .ok changed => (next (.ok ())).lines changed
      | .error fault => (next (.error fault)).lines store := by
  rw [lines, run]
  cases Files.write store path text <;> rfl

theorem lines_bind (job : Job α) (next : α → Job β) (store : σ) :
    (job.bind next).lines store =
      job.lines store ++ (next (job.ends store).1).lines (job.ends store).2 := by
  induction job generalizing store with
  | done result => rfl
  | emit output job ih =>
    rw [bind, lines_emit, ih, lines_emit, List.append_assoc]
    rfl
  | read path job ih => exact ih (Files.read store path) store
  | write path text job ih =>
    rw [bind, lines_write, lines_write, ends, run]
    cases Files.write store path text with
    | ok changed => exact ih (.ok ()) changed
    | error fault => exact ih (.error fault) store

theorem lines_emitAll (outputs : List Output) (store : σ) :
    (emitAll outputs).lines store = outputs.filterMap Output.line? := by
  induction outputs with
  | nil => rfl
  | cons output rest ih =>
    rw [emitAll, lines_emit, ih, List.filterMap_cons]
    cases output.line? <;> rfl

/-! ### Readers of a level -/

theorem ends_restrict (level : Level) (job : Job α) (store : σ) :
    (job.restrict level).ends store = job.ends store := by
  induction job generalizing store with
  | done result => rfl
  | emit output job ih =>
    rw [restrict]
    split <;> exact ih store
  | read path job ih => exact ih (Files.read store path) store
  | write path text job ih =>
    rw [restrict, ends, ends, run, run]
    cases Files.write store path text with
    | ok changed => exact ih (.ok ()) changed
    | error fault => exact ih (.error fault) store

/-- A reader of any level sees every line. -/
theorem lines_restrict (level : Level) (job : Job α) (store : σ) :
    (job.restrict level).lines store = job.lines store := by
  induction job generalizing store with
  | done result => rfl
  | emit output job ih =>
    rw [restrict, lines_emit]
    split
    next => rw [lines_emit, ih]
    next hhidden =>
      cases output with
      | event happened => exact ih store
      | line text | errorLine text => exact absurd rfl hhidden
  | read path job ih => exact ih (Files.read store path) store
  | write path text job ih =>
    rw [restrict, lines_write, lines_write]
    cases Files.write store path text with
    | ok changed => exact ih (.ok ()) changed
    | error fault => exact ih (.error fault) store

end Job

/-- The summary that is saved of a packed fixture, with its report or without. -/
def Fixture.summary (fixture : Fixture) (reported : Bool) : Value :=
  fixture.mesh.pack.summary (if reported then some fixture.mesh.report else none)

/-- What a file is read as. -/
def Files.load {σ α : Type} [Files σ] (store : σ) (parse : String → Except Json.Fault α)
    (path : String) : Except ExchangeFault α := do
  let text ← (read store path).mapError (.file path)
  (parse text).mapError .json

theorem Files.load_of_read {σ α : Type} [Files σ] {store : σ} {path text : String}
    (h : read store path = .ok text) (parse : String → Except Json.Fault α) :
    load store parse path = (parse text).mapError .json := by
  rw [load, h]
  rfl

theorem Files.load_of_unread {σ α : Type} [Files σ] {store : σ} {path : String} {cause : FileFault}
    (h : read store path = .error cause) (parse : String → Except Json.Fault α) :
    load store parse path = .error (.file path cause) := by
  rw [load, h]
  rfl

namespace Exchange

variable {σ α β : Type} [Files σ] {store changed : σ} {a : α} {fault : ExchangeFault}

/-- The result of an exchange and the store afterwards. -/
def ends (exchange : Exchange α) (store : σ) : Except ExchangeFault α × σ :=
  exchange.run.ends store

/-- The lines that an exchange prints. -/
def lines (exchange : Exchange α) (store : σ) : List String := exchange.run.lines store

theorem ends_bind {step : Exchange α} (h : step.ends store = (.ok a, changed))
    (next : α → Exchange β) : (step >>= next).ends store = (next a).ends changed := by
  have hrun := Job.ends_bind step.run (ExceptT.bindCont next) store
  rw [show step.run.ends store = (.ok a, changed) from h] at hrun
  exact hrun

theorem ends_bind_of_fault {step : Exchange α} (h : step.ends store = (.error fault, changed))
    (next : α → Exchange β) : (step >>= next).ends store = (.error fault, changed) := by
  have hrun := Job.ends_bind step.run (ExceptT.bindCont next) store
  rw [show step.run.ends store = (.error fault, changed) from h] at hrun
  exact hrun

theorem lines_bind {step : Exchange α} (h : step.ends store = (.ok a, changed))
    (next : α → Exchange β) :
    (step >>= next).lines store = step.lines store ++ (next a).lines changed := by
  have hrun := Job.lines_bind step.run (ExceptT.bindCont next) store
  rw [show step.run.ends store = (.ok a, changed) from h] at hrun
  exact hrun

theorem lines_bind_of_fault {step : Exchange α} (h : step.ends store = (.error fault, changed))
    (next : α → Exchange β) : (step >>= next).lines store = step.lines store := by
  have hrun := Job.lines_bind step.run (ExceptT.bindCont next) store
  rw [show step.run.ends store = (.error fault, changed) from h] at hrun
  exact hrun.trans (List.append_nil _)

theorem ends_ofExcept {ε : Type} (fault : ε → ExchangeFault) (found : Except ε α)
    (store : σ) : (ofExcept fault found).ends store = (found.mapError fault, store) := rfl

theorem ends_emit (outputs : List Output) (store : σ) :
    (emit outputs).ends store = (.ok (), store) := by
  have hlift := Job.ends_bind (Job.emitAll outputs)
    (fun done => .done (.ok done : Except ExchangeFault Unit)) store
  rw [Job.ends_emitAll] at hlift
  exact hlift

theorem lines_emit (outputs : List Output) (store : σ) :
    (emit outputs).lines store = outputs.filterMap Output.line? := by
  have hlift := Job.lines_bind (Job.emitAll outputs)
    (fun done => .done (.ok done : Except ExchangeFault Unit)) store
  rw [Job.ends_emitAll, Job.lines_emitAll] at hlift
  exact hlift.trans (List.append_nil _)

theorem ends_report (events : List Event) (store : σ) :
    (report events).ends store = (.ok (), store) := ends_emit _ store

theorem ends_pack (mesh : Mesh) (store : σ) :
    (pack mesh).ends store = (.ok (mesh.pack, mesh.report), store) :=
  ends_bind (ends_report _ _) _

theorem ends_readText (path : String) (store : σ) :
    (readText path).ends store = ((Files.read store path).mapError (.file path), store) := rfl

theorem ends_writeText {path text : String} (h : Files.write store path text = .ok changed) :
    (writeText path text).ends store = (.ok (), changed) := by
  simp only [ends, Job.ends, writeText, ExceptT.run, ExceptT.mk, Job.run, h]
  rfl

theorem ends_writeText_of_fault {path text : String} {cause : FileFault}
    (h : Files.write store path text = .error cause) :
    (writeText path text).ends store = (.error (.file path cause), store) := by
  simp only [ends, Job.ends, writeText, ExceptT.run, ExceptT.mk, Job.run, h]
  rfl

theorem ends_saveSummary {path : String} {packed : PackedMesh} {summarised : Option PackReport}
    (h : Files.write store path (packed.summary summarised).pretty = .ok changed) :
    (saveSummary path packed summarised).ends store = (.ok (), changed) := by
  rw [saveSummary, ends_bind (ends_writeText h)]
  exact ends_report _ _

theorem ends_saveSummary_of_fault {path : String} {packed : PackedMesh}
    {summarised : Option PackReport} {cause : FileFault}
    (h : Files.write store path (packed.summary summarised).pretty = .error cause) :
    (saveSummary path packed summarised).ends store = (.error (.file path cause), store) :=
  ends_bind_of_fault (ends_writeText_of_fault h) _

theorem ends_loadSummary (path : String) (store : σ) :
    (loadSummary path).ends store = (Files.load store Value.read path, store) := by
  have hread := ends_readText path store
  cases hfile : Files.read store path with
  | ok text =>
    rw [hfile] at hread
    rw [loadSummary, ends_bind hread, Files.load_of_read hfile]
    rfl
  | error cause =>
    rw [hfile] at hread
    rw [Files.load_of_unread hfile]
    exact ends_bind_of_fault hread _

theorem ends_loadFixture (path : String) (store : σ) :
    (loadFixture path).ends store = (Files.load store Fixture.parse path, store) := by
  have hread := ends_readText path store
  cases hfile : Files.read store path with
  | ok text =>
    have hparse := ends_ofExcept ExchangeFault.json (Fixture.parse text) store
    rw [hfile] at hread
    rw [loadFixture, ends_bind hread, Files.load_of_read hfile]
    cases hfixture : Fixture.parse text with
    | ok fixture =>
      rw [hfixture] at hparse
      rw [ends_bind hparse]
      exact ends_bind (ends_report _ _) _
    | error cause =>
      rw [hfixture] at hparse
      exact ends_bind_of_fault hparse _
  | error cause =>
    rw [hfile] at hread
    rw [Files.load_of_unread hfile]
    exact ends_bind_of_fault hread _

/-- A value that reading can give is loaded from the file it was written to, its numbers as their
texts are read. -/
theorem ends_loadSummary_of_write [LawfulFiles σ] {path : String} {depth : Nat} {value : Value}
    (written : Files.write store path value.pretty = .ok changed)
    (readable : Value.Readable depth value) (hdepth : depth ≤ Value.depthLimit) :
    (loadSummary path).ends changed = (.ok (value.map Json.Number.readBack), changed) := by
  have hread : Value.read value.pretty = .ok (value.map Json.Number.readBack) :=
    Value.Readable.read_pretty (readable.mono hdepth)
  rw [ends_loadSummary, Files.load_of_read (Files.wrote_of_write written).held, hread]
  rfl

theorem ends_compare (actual expected : Value) (tolerance : Double) (store : σ) :
    (compare actual expected tolerance).ends store =
      ((Compare.run actual expected tolerance).mapError .mismatch, store) :=
  ends_bind (ends_report _ _) _

end Exchange

end RenderMesh
