import RenderMesh.Proofs.Compare.Settling

/-!
# The first mismatch

A comparison that fails names the first place where something is amiss: every check before it
passes. For an entry this means that all entries before it match in pairs, and that both sides have
the entry and differ there. A comparison accepts where no place has anything amiss.
-/

namespace RenderMesh.Compare

open Json (Value)

/-- The first place where something is amiss. -/
structure FirstFailure (tolerance : Double) (actual expected : Value) (place : Place) : Prop where
  fails : ¬Passes tolerance actual expected place
  earlier : ∀ other : Place, other.rank < place.rank → Passes tolerance actual expected other

/-- The first entry of a part that does not match: both sides have lists of one length, whose
entries match in pairs before this one. -/
structure FirstEntry (tolerance : Double) (actual expected : Value) (which : Part) (number : Nat) :
    Prop where
  lists : Passes tolerance actual expected (.part which)
  matching : ∀ k < number, ∃ a ∈ entryAt which k actual, ∃ e ∈ entryAt which k expected,
    Related tolerance which a e
  differing : ∃ a ∈ entryAt which number actual, ∃ e ∈ entryAt which number expected,
    ¬Related tolerance which a e

variable {actual expected : Value} {tolerance : Double} {place : Place}

theorem firstFailure_of_run {m : Mismatch} (h : run actual expected tolerance = .error m) :
    FirstFailure tolerance actual expected m.place := by
  obtain ⟨_, _, hfails, hearlier⟩ := settles_run.failed m h
  exact ⟨hfails, fun other hlt => hearlier other other.zero_le_rank hlt⟩

theorem isOk_run_iff_passes :
    (run actual expected tolerance).isOk = true ↔
      ∀ place, Passes tolerance actual expected place := by
  constructor
  · intro hok place
    exact settles_run.passed hok place place.zero_le_rank place.rank_lt_rankEnd
  · intro hpasses
    cases hrun : run actual expected tolerance with
    | ok _ => rfl
    | error m => exact absurd (hpasses m.place) (firstFailure_of_run hrun).fails

theorem FirstFailure.unique {other : Place} (h : FirstFailure tolerance actual expected place)
    (hother : FirstFailure tolerance actual expected other) : place = other := by
  rcases lt_trichotomy place.rank other.rank with hlt | heq | hgt
  · exact absurd (hother.earlier place hlt) h.fails
  · exact Place.rank_injective heq
  · exact absurd (h.earlier other hgt) hother.fails

theorem exists_error_iff_firstFailure :
    (∃ m, run actual expected tolerance = .error m ∧ m.place = place) ↔
      FirstFailure tolerance actual expected place := by
  constructor
  · rintro ⟨m, hrun, rfl⟩
    exact firstFailure_of_run hrun
  · intro h
    cases hrun : run actual expected tolerance with
    | ok _ => exact absurd (isOk_run_iff_passes.mp (by rw [hrun]; rfl) place) h.fails
    | error m => exact ⟨m, rfl, (firstFailure_of_run hrun).unique h⟩

theorem FirstFailure.firstEntry {which : Part} {number : Nat}
    (h : FirstFailure tolerance actual expected (.entry which number)) :
    FirstEntry tolerance actual expected which number := by
  have hlists := h.earlier (.part which)
    (Prod.Lex.toLex_lt_toLex.mpr (Or.inl (Nat.lt_succ_self _)))
  have hdiffering : ∃ a ∈ entryAt which number actual, ∃ e ∈ entryAt which number expected,
      ¬Related tolerance which a e := by
    simpa [Passes] using h.fails
  refine ⟨hlists, ?_, hdiffering⟩
  obtain ⟨as, es, has, hes, hlength⟩ := hlists
  obtain ⟨a, ha, _⟩ := hdiffering
  have hactual : ∀ k, entryAt which k actual = as[k]? := fun k => by rw [entryAt, has]; rfl
  have hexpected : ∀ k, entryAt which k expected = es[k]? := fun k => by rw [entryAt, hes]; rfl
  have hnumber : number < as.length := by
    rw [hactual] at ha
    exact (List.getElem?_eq_some_iff.mp ha).1
  -- Both lists reach beyond the entry, so every earlier pair is there and passes.
  intro k hk
  have hak := List.getElem?_eq_getElem (hk.trans hnumber)
  have hek := List.getElem?_eq_getElem (hlength ▸ hk.trans hnumber : k < es.length)
  rw [← hactual] at hak
  rw [← hexpected] at hek
  have hpasses := h.earlier (.entry which k) (Prod.Lex.toLex_lt_toLex.mpr (Or.inr ⟨rfl, hk⟩))
  exact ⟨_, hak, _, hek, hpasses _ hak _ hek⟩

/-- The field of a mismatch is that of the first place where something is amiss, and there is a
mismatch wherever there is such a place. -/
theorem run_reports_first_failure (actual expected : Value) (tolerance : Double) :
    (∀ place : Place, (∃ m, run actual expected tolerance = .error m ∧ m.field = place.name) ↔
      FirstFailure tolerance actual expected place) ∧
    ∀ which number, FirstFailure tolerance actual expected (.entry which number) →
      FirstEntry tolerance actual expected which number := by
  refine ⟨fun place => ?_, fun which number h => h.firstEntry⟩
  rw [← exists_error_iff_firstFailure]
  constructor
  · rintro ⟨m, hrun, hfield⟩
    exact ⟨m, hrun, Place.name_injective hfield⟩
  · rintro ⟨m, hrun, rfl⟩
    exact ⟨m, hrun, rfl⟩

/-- A summary of one triangle and one material, with these numbers, indices and texture. -/
def stripSummary (numbers : List Double) (indices : List Int) (texture : String) : Value :=
  let counted (n : Int) : Value := .number (.integer n)
  .object
    [("vertex_count", counted 1), ("index_count", counted 3), ("triangle_count", counted 1),
      ("material_count", counted 1),
      ("mesh", .object
        [("vertices", .array (numbers.map fun x => .number (.double x))),
          ("indices", .array (indices.map counted)), ("material_ids", .array [counted 0]),
          ("materials", .array [.object [("texture", .string texture)]])])]

def strip : Value := stripSummary [.ofInt 1, .ofInt 2] [0, 8, 16] "A.TGA"

/-- The strip with two indices exchanged and another texture. -/
def turned : Value := stripSummary [.ofInt 1, .ofInt 2] [0, 16, 8] "B.TGA"

/-- The first of the exchanged indices is found, and before the texture. -/
theorem run_reports_first_failure_turned :
    (∃ m, run strip turned defaultTolerance = .error m ∧ m.field = "mesh.indices[1]") ∧
    FirstFailure defaultTolerance strip turned (.entry .indices 1) ∧
    FirstEntry defaultTolerance strip turned .indices 1 := by
  have hrun : run strip turned defaultTolerance = .error ⟨.entry .indices 1, .integers 8 16⟩ := by
    decide +kernel
  have hfield : ∃ m, run strip turned defaultTolerance = .error m ∧
      m.field = (Place.entry .indices 1).name := ⟨_, hrun, rfl⟩
  have hfirst := ((run_reports_first_failure strip turned defaultTolerance).1 _).mp hfield
  exact ⟨hfield, hfirst, (run_reports_first_failure strip turned defaultTolerance).2 _ _ hfirst⟩

end RenderMesh.Compare
