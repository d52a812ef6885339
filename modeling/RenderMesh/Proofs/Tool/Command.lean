import RenderMesh.Proofs.File.Exchange
import RenderMesh.Proofs.Outcome
import RenderMesh.Proofs.Packed.Json
import RenderMesh.Tool.Command

/-!
# What commands do to files

A command reads its files first, and the first fault ends it. Comparing writes nothing. Packing
writes last, so that it either fails and leaves every file, or has written its output and nothing
else.
-/

namespace RenderMesh

open Json (Value)

namespace Exchange

variable {σ α β : Type} [Files σ] {store : σ}

/-! ### Exchanges that only read -/

/-- An exchange that prints nothing and leaves every file as it was, whatever files there are. -/
structure Quiet (exchange : Exchange α) : Prop where
  lines : ∀ {σ : Type} [Files σ] (store : σ), exchange.lines store = []
  store : ∀ {σ : Type} [Files σ] (store : σ), (exchange.ends store).2 = store

theorem Quiet.ends {exchange : Exchange α} (h : Quiet exchange) {found : Except ExchangeFault α}
    (hfound : (exchange.ends store).1 = found) : exchange.ends store = (found, store) :=
  Prod.ext hfound (h.store store)

/-- What a quiet step comes to decides the rest, and nothing else of it does. -/
theorem Quiet.result_bind {step : Exchange α} (h : Quiet step) (next : α → Exchange β)
    (store : σ) : ((step >>= next).ends store).1 =
      (step.ends store).1 >>= fun a => ((next a).ends store).1 := by
  cases hstep : (step.ends store).1 with
  | ok a =>
    rw [ends_bind (h.ends hstep)]
    rfl
  | error fault =>
    rw [ends_bind_of_fault (h.ends hstep)]
    rfl

theorem Quiet.bind {step : Exchange α} (h : Quiet step) {next : α → Exchange β}
    (hnext : ∀ a, Quiet (next a)) : Quiet (step >>= next) := by
  constructor
  · intro σ _ store
    cases hstep : (step.ends store).1 with
    | ok a => rw [lines_bind (h.ends hstep), h.lines, (hnext a).lines, List.append_nil]
    | error fault => rw [lines_bind_of_fault (h.ends hstep), h.lines]
  · intro σ _ store
    cases hstep : (step.ends store).1 with
    | ok a => rw [ends_bind (h.ends hstep), (hnext a).store]
    | error fault => rw [ends_bind_of_fault (h.ends hstep)]

theorem quiet_pure (a : α) : Quiet (pure a : Exchange α) := ⟨fun _ => rfl, fun _ => rfl⟩

theorem quiet_ofExcept {ε : Type} (fault : ε → ExchangeFault) (found : Except ε α) :
    Quiet (ofExcept fault found) := ⟨fun _ => rfl, fun _ => rfl⟩

theorem quiet_readText (path : String) : Quiet (readText path) := ⟨fun _ => rfl, fun _ => rfl⟩

theorem quiet_report (events : List Event) : Quiet (report events) := by
  constructor
  · intro σ _ store
    rw [report, lines_emit, List.filterMap_map]
    exact List.filterMap_eq_nil_iff.mpr fun _ _ => rfl
  · intro σ _ store
    rw [ends_report]

theorem quiet_pack (mesh : Mesh) : Quiet (pack mesh) :=
  (quiet_report _).bind fun _ => quiet_pure _

theorem quiet_loadFixture (path : String) : Quiet (loadFixture path) :=
  (quiet_readText path).bind fun _ => (quiet_ofExcept _ _).bind fun _ =>
    (quiet_report _).bind fun _ => quiet_pure _

theorem quiet_loadSummary (path : String) : Quiet (loadSummary path) :=
  (quiet_readText path).bind fun _ => quiet_ofExcept _ _

theorem quiet_compare (actual expected : Value) (tolerance : Double) :
    Quiet (compare actual expected tolerance) :=
  (quiet_report _).bind fun _ => quiet_ofExcept _ _

theorem quiet_compareFiles (fixturePath referencePath : String) (tolerance : Double) :
    Quiet (compareFiles fixturePath referencePath tolerance) :=
  (quiet_loadFixture _).bind fun _ => (quiet_pack _).bind fun _ =>
    (quiet_loadSummary _).bind fun _ => quiet_compare _ _ _

end Exchange

/-- The code that a command ends in. -/
def exitCode : Except ExchangeFault Unit → Nat
  | .ok _ => 0
  | .error _ => 1

theorem exitCode_cases (found : Except ExchangeFault Unit) :
    exitCode found = 0 ∨ exitCode found = 1 := by
  cases found with
  | ok done => exact Or.inl rfl
  | error fault => exact Or.inr rfl

theorem exitCode_eq_zero_iff {found : Except ExchangeFault Unit} :
    exitCode found = 0 ↔ found = .ok () := by
  cases found <;> simp [exitCode]

/-! ### Comparing -/

/-- What a line says of the fault that ended a comparison. The line of a fault in a text may go on
with where in the text the fault was found. -/
def ExchangeFault.ToldBy : (fault : ExchangeFault) → (line : String) → Prop
  | .json fault, line => ∃ place, line = "FAILED: " ++ (ExchangeFault.json fault).message ++ place
  | fault, line => line = "FAILED: " ++ fault.message

theorem ExchangeFault.toldBy_message (fault : ExchangeFault) :
    fault.ToldBy ("FAILED: " ++ fault.message) := by
  cases fault with
  | json fault => exact ⟨"", String.append_empty.symm⟩
  | file path fault | mismatch found => rfl

namespace CompareCommand

variable {σ : Type} [Files σ] {store : σ} {command : CompareCommand}

/-- The lines above the verdict. -/
def heading (command : CompareCommand) : List String :=
  [s!"=== Comparing {command.fixture} ===", ""]

/-- What the files and their comparison come to: the fixture is loaded before the reference. -/
def verdict (command : CompareCommand) (store : σ) : Except ExchangeFault Unit := do
  let fixture ← Files.load store Fixture.parse command.fixture
  let reference ← Files.load store Value.read command.reference
  (Compare.run (fixture.mesh.pack.summary none) reference command.tolerance).mapError .mismatch

theorem ends_compareFiles (command : CompareCommand) (store : σ) :
    (Exchange.compareFiles command.fixture command.reference command.tolerance).ends store =
      (command.verdict store, store) := by
  apply (Exchange.quiet_compareFiles _ _ _).ends
  rw [Exchange.compareFiles, (Exchange.quiet_loadFixture _).result_bind, Exchange.ends_loadFixture]
  refine bind_congr fun fixture => ?_
  rw [Exchange.ends_bind (Exchange.ends_pack _ _)]
  dsimp only
  rw [(Exchange.quiet_loadSummary _).result_bind, Exchange.ends_loadSummary]
  refine bind_congr fun reference => ?_
  rw [Exchange.ends_compare]

theorem verdict_eq_ok_iff (command : CompareCommand) (store : σ) :
    command.verdict store = .ok () ↔ ∃ fixture reference,
      Files.load store Fixture.parse command.fixture = .ok fixture ∧
        Files.load store Value.read command.reference = .ok reference ∧
        Compare.run (fixture.mesh.pack.summary none) reference command.tolerance = .ok () := by
  simp only [verdict, bind_eq_ok, mapError_eq_ok, exists_and_left]

theorem ends_job (command : CompareCommand) (store : σ) :
    command.job.ends store = (exitCode (command.verdict store), store) := by
  refine (Job.ends_bind _ _ store).trans ?_
  rw [Job.ends_emitAll]
  refine (Job.ends_bind _ _ store).trans ?_
  rw [show Job.ends _ store = _ from command.ends_compareFiles store]
  cases command.verdict store <;> rfl

theorem lines_job_of_fault {fault : ExchangeFault} (h : command.verdict store = .error fault) :
    command.job.lines store = command.heading ++ ["FAILED: " ++ fault.message] := by
  have hquiet := (Exchange.quiet_compareFiles command.fixture command.reference
    command.tolerance).lines store
  refine (Job.lines_bind _ _ store).trans ?_
  rw [Job.ends_emitAll, Job.lines_emitAll]
  refine congrArg (command.heading ++ ·) ((Job.lines_bind _ _ store).trans ?_)
  rw [show Job.lines _ store = _ from hquiet, List.nil_append,
    show Job.ends _ store = _ from command.ends_compareFiles store, h]
  rfl

/-- What comparing comes to on a store of files: no file is changed, a fault of the fixture is told
before one of the reference, and all is well where both load and agree. -/
structure Performs (command : CompareCommand) (store : σ) (outcome : Outcome σ Nat) :
    Prop where
  code : outcome.result = 0 ∨ outcome.result = 1
  unchanged : outcome.store = store
  succeeds : outcome.result = 0 ↔ ∃ fixture reference,
    Files.load store Fixture.parse command.fixture = .ok fixture ∧
      Files.load store Value.read command.reference = .ok reference ∧
      Compare.run (fixture.mesh.pack.summary none) reference command.tolerance = .ok ()
  fixtureFault : ∀ fault, Files.load store Fixture.parse command.fixture = .error fault →
    ∃ line, outcome.lines = command.heading ++ [line] ∧ fault.ToldBy line
  referenceFault : ∀ fixture fault, Files.load store Fixture.parse command.fixture = .ok fixture →
    Files.load store Value.read command.reference = .error fault →
      ∃ line, outcome.lines = command.heading ++ [line] ∧ fault.ToldBy line

theorem performs_of_job {outcome : Outcome σ Nat}
    (hends : (outcome.result, outcome.store) = command.job.ends store)
    (hlines : outcome.lines = command.job.lines store) : command.Performs store outcome := by
  rw [ends_job] at hends
  obtain ⟨hresult, hstore⟩ := Prod.mk.inj hends
  have told {fault : ExchangeFault} (h : command.verdict store = .error fault) :
      ∃ line, outcome.lines = command.heading ++ [line] ∧ fault.ToldBy line :=
    ⟨_, hlines.trans (lines_job_of_fault h), fault.toldBy_message⟩
  refine ⟨?_, hstore, ?_, fun fault hfixture => told ?_,
    fun fixture fault hfixture hreference => told ?_⟩
  · rw [hresult]
    exact exitCode_cases _
  · rw [hresult, exitCode_eq_zero_iff, verdict_eq_ok_iff]
  · rw [verdict, hfixture]
    rfl
  · rw [verdict, hfixture, hreference]
    rfl

end CompareCommand

/-! ### Packing -/

namespace PackCommand

/-- The summary that is saved of a packed fixture. -/
def summary (command : PackCommand) (fixture : Fixture) : Value := fixture.summary command.report

theorem mem_names_summary (command : PackCommand) (fixture : Fixture) :
    "report" ∈ (command.summary fixture).names ↔ command.report = true := by
  rw [summary, Fixture.summary, PackedMesh.mem_names_summary]
  cases command.report <;> simp

/-- Saving a packed fixture where that is asked for. -/
def save (command : PackCommand) (fixture : Fixture) : Exchange Unit :=
  match command.output with
  | some path => Exchange.saveSummary path fixture.mesh.pack
      (if command.report then some fixture.mesh.report else none)
  | none => return ()

variable {σ : Type} [Files σ] {store changed : σ} {command : PackCommand} {fixture : Fixture}
  {fault : ExchangeFault}

theorem ends_load {found : Except ExchangeFault Fixture}
    (h : Files.load store Fixture.parse command.fixture = found) :
    (Exchange.loadFixture command.fixture).ends store = (found, store) := by
  rw [Exchange.ends_loadFixture, h]

theorem ends_work_of_fault (h : Files.load store Fixture.parse command.fixture = .error fault) :
    command.work.ends store = (.error fault, store) :=
  Exchange.ends_bind_of_fault (ends_load h) _

theorem lines_work_of_fault (h : Files.load store Fixture.parse command.fixture = .error fault) :
    command.work.lines store = [] := by
  have hload := Exchange.quiet_loadFixture command.fixture
  exact (Exchange.lines_bind_of_fault (ends_load h) _).trans (hload.lines store)

/-- A fixture that is loaded is packed and shown, which leaves it to be saved. -/
theorem ends_work (h : Files.load store Fixture.parse command.fixture = .ok fixture) :
    command.work.ends store = (command.save fixture).ends store := by
  rw [work, Exchange.ends_bind (ends_load h), Exchange.ends_bind (Exchange.ends_pack _ _)]
  dsimp only
  rw [Exchange.ends_bind (Exchange.ends_emit _ _), save]
  by_cases hreport : command.report = true
  · rw [if_pos hreport]
    exact Exchange.ends_bind (Exchange.ends_emit _ _) _
  · exact congrArg (Exchange.ends · store) (if_neg hreport)

theorem ends_save_of_none (h : command.output = none) :
    (command.save fixture).ends store = (.ok (), store) := by
  rw [save, h]
  rfl

theorem ends_save_of_write {path : String} (h : command.output = some path)
    (written : Files.write store path (command.summary fixture).pretty = .ok changed) :
    (command.save fixture).ends store = (.ok (), changed) := by
  rw [save, h]
  exact Exchange.ends_saveSummary written

theorem ends_save_of_fault {path : String} {cause : FileFault} (h : command.output = some path)
    (unwritten : Files.write store path (command.summary fixture).pretty = .error cause) :
    (command.save fixture).ends store = (.error (.file path cause), store) := by
  rw [save, h]
  exact Exchange.ends_saveSummary_of_fault unwritten

theorem ends_job (command : PackCommand) (store : σ) : command.job.ends store =
    (exitCode (command.work.ends store).1, (command.work.ends store).2) := by
  refine (Job.ends_bind _ _ store).trans ?_
  rw [show Job.ends _ store = command.work.ends store from rfl]
  cases (command.work.ends store).1 <;> rfl

theorem lines_job (command : PackCommand) (store : σ) :
    command.job.lines store = command.work.lines store := by
  refine (Job.lines_bind _ _ store).trans ?_
  rw [show Job.ends _ store = command.work.ends store from rfl]
  cases (command.work.ends store).1 <;> exact List.append_nil _

/-- The fixture loads, and its summary can be written where one is asked for. -/
def Ready (command : PackCommand) (store : σ) : Prop :=
  ∃ fixture, Files.load store Fixture.parse command.fixture = .ok fixture ∧
    ∀ path ∈ command.output, ∃ changed,
      Files.write store path (command.summary fixture).pretty = .ok changed

/-- What packing comes to on a store of files. A failure leaves every file, and where the fixture is
at fault it prints nothing. A success changes nothing but the output that was asked for, which holds
the summary then, and the summary has a report exactly if that was asked for. -/
structure Performs [LawfulFiles σ] (command : PackCommand) (store : σ) (outcome : Outcome σ Nat) :
    Prop where
  code : outcome.result = 0 ∨ outcome.result = 1
  succeeds : outcome.result = 0 ↔ command.Ready store
  failed : outcome.result = 1 → outcome.store = store
  silent : ∀ fault, Files.load store Fixture.parse command.fixture = .error fault →
    outcome.lines = []
  unasked : command.output = none → outcome.store = store
  saved : outcome.result = 0 → ∀ path ∈ command.output, ∃ fixture,
    Files.load store Fixture.parse command.fixture = .ok fixture ∧
      Files.Wrote store path (command.summary fixture).pretty outcome.store ∧
      ("report" ∈ (command.summary fixture).names ↔ command.report = true)

variable [LawfulFiles σ] {outcome : Outcome σ Nat}

theorem performs_of_failure (unready : ¬command.Ready store) (hresult : outcome.result = 1)
    (hstore : outcome.store = store)
    (silent : ∀ fault, Files.load store Fixture.parse command.fixture = .error fault →
      outcome.lines = []) : command.Performs store outcome where
  code := Or.inr hresult
  succeeds := iff_of_false (fun hzero => Nat.one_ne_zero (hresult.symm.trans hzero)) unready
  failed _ := hstore
  silent := silent
  unasked _ := hstore
  saved hzero := absurd (hresult.symm.trans hzero) Nat.one_ne_zero

theorem performs_of_success (ready : command.Ready store) (hresult : outcome.result = 0)
    (hload : Files.load store Fixture.parse command.fixture = .ok fixture)
    (unasked : command.output = none → outcome.store = store)
    (wrote : ∀ path ∈ command.output,
      Files.Wrote store path (command.summary fixture).pretty outcome.store) :
    command.Performs store outcome where
  code := Or.inl hresult
  succeeds := iff_of_true hresult ready
  failed hone := absurd (hresult.symm.trans hone) Nat.zero_ne_one
  silent _ hfault := nomatch hload.symm.trans hfault
  unasked := unasked
  saved _ path hpath :=
    ⟨fixture, hload, wrote path hpath, command.mem_names_summary fixture⟩

/-- With its fixture loaded, packing ends as saving it ends. -/
theorem performs_of_loaded (hload : Files.load store Fixture.parse command.fixture = .ok fixture)
    (hends : (outcome.result, outcome.store) =
      (exitCode ((command.save fixture).ends store).1, ((command.save fixture).ends store).2)) :
    command.Performs store outcome := by
  cases houtput : command.output with
  | none =>
    rw [ends_save_of_none houtput] at hends
    obtain ⟨hresult, hstore⟩ := Prod.mk.inj hends
    refine performs_of_success ⟨fixture, hload, ?_⟩ hresult hload (fun _ => hstore) ?_
    · simp [houtput]
    · simp [houtput]
  | some path =>
    cases hwrite : Files.write store path (command.summary fixture).pretty with
    | ok changed =>
      rw [ends_save_of_write houtput hwrite] at hends
      obtain ⟨hresult, hstore⟩ := Prod.mk.inj hends
      refine performs_of_success ⟨fixture, hload, ?_⟩ hresult hload ?_ ?_
      · simp [houtput, hwrite]
      · simp [houtput]
      · rw [hstore]
        simpa [houtput] using Files.wrote_of_write hwrite
    | error cause =>
      rw [ends_save_of_fault houtput hwrite] at hends
      obtain ⟨hresult, hstore⟩ := Prod.mk.inj hends
      have unready : ¬command.Ready store := by
        rintro ⟨other, hother, hwritable⟩
        cases hload.symm.trans hother
        obtain ⟨changed, hchanged⟩ := hwritable path houtput
        exact nomatch hwrite.symm.trans hchanged
      exact performs_of_failure unready hresult hstore
        fun _ hfault => nomatch hload.symm.trans hfault

/-- Packing that ends like its job, with the same lines, performs the command. -/
theorem performs_of_job (hends : (outcome.result, outcome.store) = command.job.ends store)
    (hlines : outcome.lines = command.job.lines store) : command.Performs store outcome := by
  rw [ends_job] at hends
  rw [lines_job] at hlines
  cases hload : Files.load store Fixture.parse command.fixture with
  | error fault =>
    rw [ends_work_of_fault hload] at hends
    obtain ⟨hresult, hstore⟩ := Prod.mk.inj hends
    have unready : ¬command.Ready store := fun ⟨_, hok, _⟩ => nomatch hload.symm.trans hok
    exact performs_of_failure unready hresult hstore
      fun _ _ => hlines.trans (lines_work_of_fault hload)
  | ok fixture =>
    rw [ends_work hload] at hends
    exact performs_of_loaded hload hends

end PackCommand

end RenderMesh
