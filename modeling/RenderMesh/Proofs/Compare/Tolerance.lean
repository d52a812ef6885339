import RenderMesh.Proofs.Compare.FirstMismatch
import RenderMesh.Proofs.Number.Order

/-!
# Sides and tolerances

What is asked at a place does not depend on which side is which, and a wider tolerance asks no more.
So a comparison with its sides exchanged comes to the same end, and one with a wider tolerance
accepts at least as much and fails, if it does, no earlier.
-/

namespace RenderMesh

namespace Compare

open Json (Value)

variable {actual expected : Value} {tolerance wider : Double} {place : Place}

/-! ### Sides -/

theorem SameInteger.symm (h : SameInteger actual expected) : SameInteger expected actual := by
  obtain ⟨i, hrange, ha, he⟩ := h
  exact ⟨i, hrange, he, ha⟩

theorem Near.symm (h : Near tolerance actual expected) : Near tolerance expected actual := by
  obtain ⟨x, y, ha, he, hnear⟩ := h
  rw [Binary.distance_comm] at hnear
  exact ⟨y, x, he, ha, hnear⟩

theorem Related.symm {which : Part} (h : Related tolerance which actual expected) :
    Related tolerance which expected actual := by
  cases which with
  | vertices => exact Near.symm h
  | indices | materialIds => exact SameInteger.symm h
  | materials => exact Eq.symm h

theorem Passes.symm (h : Passes tolerance actual expected place) :
    Passes tolerance expected actual place := by
  cases place with
  | count which => exact SameInteger.symm h
  | part which =>
    obtain ⟨as, es, ha, he, hlength⟩ := h
    exact ⟨es, as, he, ha, hlength.symm⟩
  | entry which number =>
    intro e he a ha
    exact (h a ha e he).symm

theorem FirstFailure.symm (h : FirstFailure tolerance actual expected place) :
    FirstFailure tolerance expected actual place where
  fails hpasses := h.fails hpasses.symm
  earlier other hlt := (h.earlier other hlt).symm

/-! ### Tolerances -/

theorem Related.mono {which : Part} (hle : tolerance.AtMost wider)
    (h : Related tolerance which actual expected) : Related wider which actual expected := by
  cases which with
  | vertices =>
    obtain ⟨x, y, ha, he, hnear⟩ := h
    refine ⟨x, y, ha, he, ?_⟩
    rw [Bool.eq_false_iff] at hnear ⊢
    exact fun hfar => hnear (hle.less_of_less hfar)
  | indices | materialIds | materials => exact h

theorem Passes.mono (hle : tolerance.AtMost wider) (h : Passes tolerance actual expected place) :
    Passes wider actual expected place := by
  cases place with
  | count which | part which => exact h
  | entry which number =>
    intro a ha e he
    exact (h a ha e he).mono hle

/-- The first place to fail under a wider tolerance fails under the narrower one too, which has
found it or an earlier one. -/
theorem FirstFailure.rank_mono {other : Place} (hle : tolerance.AtMost wider)
    (h : FirstFailure tolerance actual expected place)
    (hwider : FirstFailure wider actual expected other) : place.rank ≤ other.rank := by
  by_contra hlater
  exact hwider.fails ((h.earlier other (lt_of_not_ge hlater)).mono hle)

/-! ### Comparisons -/

theorem run_symm_field (actual expected : Value) (tolerance : Double) :
    (run actual expected tolerance).mapError Mismatch.field =
      (run expected actual tolerance).mapError Mismatch.field := by
  cases hrun : run actual expected tolerance with
  | ok _ =>
    have hpasses := isOk_run_iff_passes.mp (isOk_iff.mpr hrun)
    have hback := isOk_run_iff_passes.mpr fun place => (hpasses place).symm
    rw [isOk_iff.mp hback]
  | error m =>
    obtain ⟨m', hback, hplace⟩ := exists_error_iff_firstFailure.mpr (firstFailure_of_run hrun).symm
    rw [hback]
    simp only [Except.mapError, Mismatch.field, hplace]

/-- Which side is which decides neither whether two summaries agree nor where they differ. A wider
tolerance accepts what a narrower one does, and fails at no earlier place. -/
theorem run_symmetric_monotone (actual expected : Value) (tolerance : Double) :
    (run actual expected tolerance).mapError Mismatch.field =
      (run expected actual tolerance).mapError Mismatch.field ∧
    ∀ wider : Double, tolerance.AtMost wider →
      (run actual expected tolerance = .ok () → run actual expected wider = .ok ()) ∧
      ∀ m m', run actual expected tolerance = .error m → run actual expected wider = .error m' →
        m.place.rank ≤ m'.place.rank := by
  refine ⟨run_symm_field actual expected tolerance, fun wider hle => ⟨?_, ?_⟩⟩
  · intro hrun
    have hpasses := isOk_run_iff_passes.mp (isOk_iff.mpr hrun)
    exact isOk_iff.mp (isOk_run_iff_passes.mpr fun place => (hpasses place).mono hle)
  · intro m m' hrun hwider
    exact (firstFailure_of_run hrun).rank_mono hle (firstFailure_of_run hwider)

/-- The strip with a number one further and another texture. -/
def stretched : Value := stripSummary [.ofInt 1, .ofInt 3] [0, 8, 16] "B.TGA"

/-- The number is found from both sides; a tolerance that lets it pass finds the texture. -/
theorem run_symmetric_monotone_stretched :
    (run stretched strip .zero).mapError Mismatch.field = .error "mesh.vertices[1]" ∧
    Binary.AtMost .zero (.ofInt 1 : Double) ∧
    (Place.entry .vertices 1).rank ≤ (Place.entry .materials 0).rank := by
  have hrun : run strip stretched .zero =
      .error ⟨.entry .vertices 1, .numbers (.ofInt 2) (.ofInt 3) (.ofInt 1)⟩ := by decide +kernel
  have hwider : run strip stretched (.ofInt 1) =
      .error ⟨.entry .materials 0, .textures "A.TGA" "B.TGA"⟩ := by decide +kernel
  have hle : Binary.AtMost .zero (.ofInt 1 : Double) := Or.inl (by decide +kernel)
  obtain ⟨hsides, htolerances⟩ := run_symmetric_monotone strip stretched .zero
  refine ⟨?_, hle, (htolerances _ hle).2 _ _ hrun hwider⟩
  rw [← hsides, hrun]
  rfl

end Compare

end RenderMesh
