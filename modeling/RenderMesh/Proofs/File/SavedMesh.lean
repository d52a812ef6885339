import RenderMesh.Proofs.File.GoldenFile

/-!
# Saved meshes

What is loaded of a saved summary is the summary again, but for numbers whose text is not read as
they are. Nothing is lost by that: the mesh and the report are restored from either, in every bit.
-/

namespace RenderMesh

open Json (Layout Number Rendering Value)

/-! ### Numbers of a summary -/

theorem Single.spells_widen {x : Single} (hx : x.isFinite = true) :
    Json.SpellsSingle (Number.double x.widen).text x :=
  (about_widen hx).spells (le_refl 0) (by norm_num) hx

/-- What the text of a widened number is read as still stands for the number. -/
theorem Single.spells_readBack {x : Single} (hx : x.isFinite = true) :
    Json.SpellsSingle (Number.double x.widen).readBack.text x := by
  obtain ⟨z, hreads, habout⟩ := (about_widen hx).reads (le_refl 0) (by norm_num) hx
  rw [hreads.readBack]
  refine habout.spells ?_ ?_ hx
  all_goals norm_num [Double.share]

namespace PackedMesh

variable {packed : PackedMesh} {report : Option PackReport}

/-- What a summary has to say of a mesh and a report. The text of its mesh, in any layout of
blanks, is read as the mesh, bit for bit, or is not read if one of the numbers is not finite. It
has a report if one was given, and the text of it is read as the one given. -/
structure RestoredFrom (packed : PackedMesh) (report : Option PackReport) (summary : Value) :
    Prop where
  mesh : ∀ layout : Layout, layout.Blank → ∀ level found,
    codec.parse (String.ofList ((summary.get "mesh").text Number.text layout level)) = .ok found ↔
      (∀ x ∈ packed.floats, x.isFinite = true) ∧ found = packed
  reported : "report" ∈ summary.names ↔ report.isSome = true
  report : ∀ counted ∈ report, ∀ layout : Layout, layout.Blank → ∀ level,
    PackReport.codec.parse (String.ofList ((summary.get "report").text Number.text layout level)) =
      .ok counted

/-- A summary restores its mesh and its report also when its numbers have become others, as long as
these are read as the ones of the mesh. -/
theorem Sized.restoredFrom_map (h : packed.Sized) (hr : ∀ r ∈ report, r.Sized)
    (g : Number → Number)
    (natural : ∀ n < UInt64.size, Json.Spells (g (.integer (n : Nat))).text (.integer n))
    (single : ∀ x : Single, x.isFinite = true →
      Json.SpellsSingle (g (.double x.widen)).text x) :
    packed.RestoredFrom report ((packed.summary report).map g) := by
  refine ⟨fun layout hl level found => ?_, ?_, ?_⟩
  · rw [Json.Tree.get_map, summary_mesh, ← List.all_eq_true]
    exact h.restores.parse_iff (.value g natural single) hl level found
  · rw [Json.Tree.names_map]
    exact packed.mem_names_summary report
  · rintro counted rfl layout hl level
    rw [Json.Tree.get_map, summary_report]
    exact ((hr counted rfl).restores.parse_iff (.value g natural single) hl level counted).mpr
      ⟨rfl, rfl⟩

theorem Sized.restoredFrom (h : packed.Sized) (hr : ∀ r ∈ report, r.Sized) :
    packed.RestoredFrom report (packed.summary report) := by
  have hsame : (packed.summary report).map id = packed.summary report :=
    Value.Shaped.map_eq (h.shaped_summary hr ⟨fun _ _ => rfl, fun _ _ _ => rfl⟩)
  have hrestored := h.restoredFrom_map hr id (fun _ hn => Number.reads_natural hn)
    fun _ hx => Single.spells_widen hx
  rwa [hsame] at hrestored

/-- What is read of a summary restores as much as the summary. -/
theorem Sized.restoredFrom_readBack (h : packed.Sized) (hr : ∀ r ∈ report, r.Sized) :
    packed.RestoredFrom report ((packed.summary report).map Number.readBack) := by
  refine h.restoredFrom_map hr _ (fun n hn => ?_) fun _ hx => Single.spells_readBack hx
  rw [(Number.reads_natural hn).readBack]
  exact Number.reads_natural hn

end PackedMesh

/-! ### Saving and loading -/

namespace Exchange

variable {σ : Type} [Files σ] [LawfulFiles σ] {store changed : σ} {path : String}
  {packed : PackedMesh} {report : Option PackReport}

/-- A saved summary is loaded as the summary itself if the text of each number is read as the
number. Either way the mesh and the report are restored from what was saved and from what is
loaded. -/
theorem loadSummary_saveSummary
    (written : Files.write store path (packed.summary report).pretty = .ok changed)
    (sized : packed.Sized) (counted : ∀ r ∈ report, r.Sized) :
    packed.RestoredFrom report (packed.summary report) ∧
    ∃ loaded, ((do saveSummary path packed report; loadSummary path).ends store).1 = .ok loaded ∧
      packed.RestoredFrom report loaded ∧
      ((∀ x ∈ packed.floats, x.isFinite = true →
        (Number.double x.widen).reread = .ok (.double x.widen)) →
          loaded = packed.summary report) := by
  have hloaded := ends_loadSummary_of_write written (sized.readable_summary counted) (by decide)
  refine ⟨sized.restoredFrom counted, _, ?_, sized.restoredFrom_readBack counted, fun same => ?_⟩
  · rw [ends_bind (ends_saveSummary written), hloaded]
  · have hcovers : Number.Covers (fun n => n.readBack = n) packed.floats :=
      ⟨fun n hn => (Number.reads_natural hn).readBack, fun x hx hfinite => by
        rw [Number.readBack, same x hx hfinite]⟩
    exact Value.Shaped.map_eq (sized.shaped_summary counted hcovers)

/-- A packed mesh with both zeros, a number of many digits, a name that needs escapes and the
greatest integers. -/
def etched : PackedMesh where
  vertices := #[.zero, .ofBits 0x80000000, .ofBits 0x3dcccccd]
  indices := #[4294967295]
  materialIds := #[0]
  materials := #[{ name := "\"\\\n", waveMode := .windAmbient }]
  drawRanges := #[⟨0, 18446744073709551615, 1⟩]

def etchedReport : PackReport where
  mergedMaterials := 1
  weldedCorners := 18446744073709551615

theorem loadSummary_saveSummary_etched :
    (∃ changed, Files.write ({} : FileStore) "sheet.json"
      (etched.summary (some etchedReport)).pretty = .ok changed) ∧ etched.Sized ∧
    (∀ r ∈ some etchedReport, r.Sized) ∧ (∀ x ∈ etched.floats, x.isFinite = true) ∧
    (∀ x ∈ etched.floats, x.isFinite = true →
      (Number.double x.widen).reread = .ok (.double x.widen)) ∧
    ((do saveSummary "sheet.json" etched (some etchedReport); loadSummary "sheet.json").ends
      ({} : FileStore)).1 = .ok (etched.summary (some etchedReport)) ∧
    PackedMesh.codec.parse (Value.compact ((etched.summary (some etchedReport)).get "mesh")) =
      .ok etched ∧
    PackReport.codec.parse (Value.compact ((etched.summary (some etchedReport)).get "report")) =
      .ok etchedReport := by
  have sized : etched.Sized := by
    refine ⟨by decide, by decide, by decide, by decide, ?_⟩
    simp [etched, UInt64.size]
  have counted : ∀ r ∈ some etchedReport, r.Sized := by
    rintro r ⟨⟩
    constructor <;> decide
  have hnumbers : ∀ x ∈ etched.floats, x.isFinite = true ∧
      (Number.double x.widen).reread = .ok (.double x.widen) := by decide +kernel
  have finite : ∀ x ∈ etched.floats, x.isFinite = true := fun x hx => (hnumbers x hx).1
  have same : ∀ x ∈ etched.floats, x.isFinite = true →
      (Number.double x.widen).reread = .ok (.double x.widen) := fun x hx _ => (hnumbers x hx).2
  have written := FileStore.write_of_target target_sheet
    (etched.summary (some etchedReport)).pretty
  obtain ⟨restored, loaded, hloaded, _, hsame⟩ := loadSummary_saveSummary written sized counted
  rw [hsame same] at hloaded
  exact ⟨⟨_, written⟩, sized, counted, finite, same, hloaded,
    (restored.mesh .compact Layout.blank_compact 0 etched).mpr ⟨finite, rfl⟩,
    restored.report etchedReport rfl .compact Layout.blank_compact 0⟩

end Exchange

end RenderMesh
