import RenderMesh.Tool
import RenderMesh.Proofs.CommandLine
import RenderMesh.Proofs.File.GoldenFile
import RenderMesh.Proofs.Tool.Command

/-!
# What tools do to files

An accepted command line gives one command, and a tool does what that command does, whatever level
of events it shows.
-/

namespace RenderMesh

/-! ### Commands of a command line -/

/-- A pack command as the operand and the options of a command line say it. -/
structure PackCommand.GivenBy (command : PackCommand) (given : Given) : Prop where
  operands : given.operands = [command.fixture]
  output : given.value? "output" = command.output
  report : command.report = true ↔ 0 < given.count "report"

/-- A compare command as the operands and the options of a command line say it. The tolerance is the
default one unless a text for it is given. -/
structure CompareCommand.GivenBy (command : CompareCommand) (given : Given) : Prop where
  operands : given.operands = [command.fixture, command.reference]
  assumed : given.value? "tolerance" = none → command.tolerance = Compare.defaultTolerance
  tolerance : ∀ text ∈ given.value? "tolerance", Binary.ofText? text = some command.tolerance

namespace Tool

open Exchange (sheet sheetText target_sheet)

variable {σ : Type} [Files σ] {tool : Tool} {words : List String} {given : Given}

theorem ends_job (h : tool.interface.read words = .ok given) (store : σ) :
    (tool.job words).ends store = (tool.work given).ends store := by
  rw [job, h]
  exact Job.ends_restrict _ _ store

theorem lines_job (h : tool.interface.read words = .ok given) (store : σ) :
    (tool.job words).lines store = (tool.work given).lines store := by
  rw [job, h]
  exact Job.lines_restrict _ _ store

theorem exists_packCommand (h : pack.interface.read words = .ok given) :
    ∃ command : PackCommand, command.GivenBy given ∧ pack.work given = command.job := by
  obtain ⟨fixture, hfixture⟩ := List.length_eq_one_iff.mp (Interface.allows_of_read h).2
  refine ⟨_, ⟨?_, rfl, ?_⟩, rfl⟩
  · rw [hfixture]
    rfl
  · rw [bne_iff_ne, Nat.pos_iff_ne_zero]

/-- The text of a tolerance that was accepted is one of a number. -/
theorem exists_tolerance (h : compare.interface.read words = .ok given) {text : String}
    (hgiven : given.value? "tolerance" = some text) :
    ∃ tolerance : Double, Binary.ofText? text = some tolerance := by
  have hmem : ("tolerance", text) ∈ given.options := by
    obtain ⟨before, after, hsplit, _⟩ := List.lookup_eq_some_iff.mp hgiven
    simp [hsplit]
  obtain ⟨option, hoption, hname, haccepts⟩ := (Interface.allows_of_read h).1 _ hmem
  simp only [interface, sharedOptions, List.mem_cons, List.not_mem_nil, or_false] at hoption
  obtain rfl | rfl | rfl := hoption
  · exact Option.isSome_iff_exists.mp (haccepts rfl)
  · exact absurd hname (show "verbose" ≠ "tolerance" by decide)
  · exact absurd hname (show "help" ≠ "tolerance" by decide)

theorem exists_compareCommand (h : compare.interface.read words = .ok given) :
    ∃ command : CompareCommand, command.GivenBy given ∧ compare.work given = command.job := by
  obtain ⟨fixture, reference, hfiles⟩ := List.length_eq_two.mp (Interface.allows_of_read h).2
  refine ⟨_, ⟨?_, fun hnone => ?_, fun text htext => ?_⟩, rfl⟩
  · rw [hfiles]
    rfl
  · rw [hnone]
    rfl
  · obtain ⟨tolerance, htolerance⟩ := exists_tolerance h htext
    rw [Option.mem_def.mp htext, Option.bind_some, htolerance]
    rfl

/-- On every store of files whose writes store the whole text or fail, a command line that is
accepted performs the command that it gives. -/
theorem job_performs [LawfulFiles σ] (store : σ) (words : List String) :
    (∀ given, compare.interface.read words = .ok given → ∃ command : CompareCommand,
      command.GivenBy given ∧ command.Performs store ((compare.job words).run store)) ∧
    (∀ given, pack.interface.read words = .ok given → ∃ command : PackCommand,
      command.GivenBy given ∧ command.Performs store ((pack.job words).run store)) := by
  refine ⟨fun given h => ?_, fun given h => ?_⟩
  · obtain ⟨command, hgiven, hwork⟩ := exists_compareCommand h
    refine ⟨command, hgiven, CompareCommand.performs_of_job ?_ ?_⟩
    · exact (ends_job h store).trans (congrArg (·.ends store) hwork)
    · exact (lines_job h store).trans (congrArg (·.lines store) hwork)
  · obtain ⟨command, hgiven, hwork⟩ := exists_packCommand h
    refine ⟨command, hgiven, PackCommand.performs_of_job ?_ ?_⟩
    · exact (ends_job h store).trans (congrArg (·.ends store) hwork)
    · exact (lines_job h store).trans (congrArg (·.lines store) hwork)

/-- A store with the text of a fixture for its only file. -/
def shelf : FileStore := ({} : FileStore).put ["sheet.json"] (.text sheetText)

theorem shelf_load : Files.load shelf Fixture.parse "sheet.json" = .ok sheet := by
  have hread : Files.read shelf "sheet.json" = .ok sheetText :=
    FileStore.read_put target_sheet sheetText
  have hparse : Fixture.parse sheetText = .ok sheet := by decide +kernel
  rw [Files.load_of_read hread, hparse]
  rfl

/-- A store with a fixture that breaks off for its only file. -/
def torn : FileStore := ({} : FileStore).put ["sheet.json"] (.text "\x7b")

theorem torn_load : Files.load torn Fixture.parse "sheet.json" =
    .error (.json (.unfinished .object)) := by
  have hread : Files.read torn "sheet.json" = .ok "\x7b" := FileStore.read_put target_sheet _
  have hparse : Fixture.parse "\x7b" = .error (.unfinished .object) := by decide +kernel
  rw [Files.load_of_read hread, hparse]
  rfl

/-- Where nothing is, comparing tells of the fixture, not of the reference, and so it does where the
fixture breaks off. On the shelf, packing puts the summary of the sheet, with its report, in the
place of the sheet. -/
theorem job_performs_sheet :
    (∃ given, compare.interface.read ["sheet.json", "gone.json"] = .ok given) ∧
    ((compare.job ["sheet.json", "gone.json"]).run ({} : FileStore)).result = 1 ∧
    ((compare.job ["sheet.json", "gone.json"]).run ({} : FileStore)).lines =
      ["=== Comparing sheet.json ===", "",
       "FAILED: failed to read or write sheet.json: No such file or directory (os error 2)"] ∧
    (∃ place, ((compare.job ["sheet.json", "gone.json"]).run torn).lines =
      ["=== Comparing sheet.json ===", "",
       "FAILED: invalid JSON: EOF while parsing an object" ++ place]) ∧
    (∃ given, pack.interface.read ["sheet.json", "--report", "-o", "sheet.json"] = .ok given) ∧
    ((pack.job ["sheet.json", "--report", "-o", "sheet.json"]).run shelf).result = 0 ∧
    ((pack.job ["sheet.json", "--report", "-o", "sheet.json"]).run shelf).store.read "sheet.json" =
      .ok (sheet.mesh.pack.summary (some sheet.mesh.report)).pretty := by
  have hcompare : compare.interface.read ["sheet.json", "gone.json"] =
      .ok { operands := ["sheet.json", "gone.json"] } := by decide +kernel
  have hpack : pack.interface.read ["sheet.json", "--report", "-o", "sheet.json"] =
      .ok { operands := ["sheet.json"]
            options := [("report", ""), ("output", "sheet.json")] } := by decide +kernel
  obtain ⟨⟨missing, reference, tolerance⟩, hgiven, compared⟩ :=
    (job_performs ({} : FileStore) ["sheet.json", "gone.json"]).1 _ hcompare
  obtain ⟨⟨broken, other, near⟩, htorn, told⟩ :=
    (job_performs torn ["sheet.json", "gone.json"]).1 _ hcompare
  obtain ⟨⟨fixture, output, report⟩, hasked, packed⟩ :=
    (job_performs shelf ["sheet.json", "--report", "-o", "sheet.json"]).2 _ hpack
  cases hgiven.operands
  cases htorn.operands
  cases hasked.operands
  cases hasked.output
  have hreport : report = true := hasked.report.mpr (by decide)
  subst hreport
  have hunread : Files.load ({} : FileStore) Fixture.parse "sheet.json" =
      .error (.file "sheet.json" .notFound) :=
    Files.load_of_unread (FileStore.read_of_absent target_sheet rfl) Fixture.parse
  have hwritable : shelf.target "sheet.json" = .ok ["sheet.json"] :=
    FileStore.target_put target_sheet sheetText
  have hzero := packed.succeeds.mpr ⟨sheet, shelf_load, fun path hpath => by
    cases hpath
    exact ⟨_, FileStore.write_of_target hwritable _⟩⟩
  obtain ⟨loaded, hloaded, hwrote, -⟩ := packed.saved hzero _ rfl
  cases hloaded.symm.trans shelf_load
  refine ⟨⟨_, hcompare⟩, ?_, ?_, ?_, ⟨_, hpack⟩, hzero, hwrote.held⟩
  · refine compared.code.resolve_left fun hsuccess => ?_
    obtain ⟨found, _, hfound, _⟩ := compared.succeeds.mp hsuccess
    cases hunread.symm.trans hfound
  · obtain ⟨line, hlines, rfl⟩ := compared.fixtureFault _ hunread
    exact hlines
  · obtain ⟨_, hlines, place, rfl⟩ := told.fixtureFault _ torn_load
    exact ⟨place, hlines⟩

end Tool

end RenderMesh
