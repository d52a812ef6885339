import RenderMesh.Proofs.Compare.Places
import RenderMesh.Proofs.Matching

/-!
# Settling places in order

Comparing goes through the places in their order. A step of it settles a stretch of places: it gives
a result when they all pass, and else it fails at the first one that does not. Steps one after the
other settle their stretches together, so a whole comparison settles all places.
-/

namespace RenderMesh.Compare

open Json (Value)

/-! ### What is asked at a place -/

/-- What is asked of an entry of a part on both sides. -/
def Related (tolerance : Double) : Part → Value → Value → Prop
  | .vertices => Near tolerance
  | .indices | .materialIds => SameInteger
  | .materials => SameTexture

/-- The entries of a part of a summary, if they are a list. -/
def entriesOf (which : Part) (summary : Value) : Option (List Value) :=
  ((summary.get "mesh").get which.name).entries?

/-- The entry of a number in a part of a summary, if there is one. -/
def entryAt (which : Part) (number : Nat) (summary : Value) : Option Value :=
  (entriesOf which summary).bind fun entries => entries[number]?

/-- Whether nothing is amiss at a place. Entries are looked at where both sides have one. -/
def Passes (tolerance : Double) (actual expected : Value) : Place → Prop
  | .count which => SameInteger (actual.get which.name) (expected.get which.name)
  | .part which => ∃ as es, entriesOf which actual = some as ∧ entriesOf which expected = some es ∧
      as.length = es.length
  | .entry which number => ∀ a ∈ entryAt which number actual,
      ∀ e ∈ entryAt which number expected, Related tolerance which a e

/-! ### Stretches of places -/

section

variable {α β : Type}

/-- A step of comparing that goes through the places from rank `first` to before rank `stop`. -/
structure Settles (passes : Place → Prop) (first stop : ℕ ×ₗ ℕ) (found : Except Mismatch α) :
    Prop where
  le : first ≤ stop
  passed : found.isOk = true → ∀ place : Place, first ≤ place.rank → place.rank < stop →
    passes place
  failed : ∀ m, found = .error m → first ≤ m.place.rank ∧ m.place.rank < stop ∧
    ¬passes m.place ∧ ∀ place : Place, first ≤ place.rank → place.rank < m.place.rank →
      passes place

variable {passes : Place → Prop} {first middle stop : ℕ ×ₗ ℕ}

theorem settles_nothing (passes : Place → Prop) (here : ℕ ×ₗ ℕ) (a : α) :
    Settles passes here here (.ok a) where
  le := le_refl here
  passed _ _ hfirst hstop := absurd hstop (not_lt_of_ge hfirst)
  failed _ h := nomatch h

/-- Two steps one after the other; the second one may use what the first one gives. -/
theorem Settles.bind {found : Except Mismatch α} {next : α → Except Mismatch β}
    (h : Settles passes first middle found) (hle : middle ≤ stop)
    (hnext : ∀ a, found = .ok a → Settles passes middle stop (next a)) :
    Settles passes first stop (found >>= next) := by
  refine ⟨h.le.trans hle, ?_, ?_⟩
  · intro hok place hfirst hstop
    obtain ⟨a, rfl, hok⟩ := (isOk_bind found next).mp hok
    rcases lt_or_ge place.rank middle with hbefore | hafter
    · exact h.passed rfl place hfirst hbefore
    · exact (hnext a rfl).passed hok place hafter hstop
  · intro m hm
    cases found with
    | error fault =>
      obtain rfl : fault = m := Except.error.inj hm
      obtain ⟨hfrom, hto, hrest⟩ := h.failed fault rfl
      exact ⟨hfrom, lt_of_lt_of_le hto hle, hrest⟩
    | ok a =>
      -- The places of the first step passed, so the second one fails at the first of all.
      obtain ⟨hfrom, hto, hfails, hearlier⟩ := (hnext a rfl).failed m hm
      refine ⟨h.le.trans hfrom, hto, hfails, ?_⟩
      intro place hfirst hlt
      rcases lt_or_ge place.rank middle with hbefore | hafter
      · exact h.passed rfl place hfirst hbefore
      · exact hearlier place hafter hlt

theorem Settles.map {found : Except Mismatch α} (h : Settles passes first stop found)
    (f : α → β) : Settles passes first stop (found.map f) := by
  refine ⟨h.le, ?_, ?_⟩
  · rw [isOk_map]
    exact h.passed
  · intro m hm
    cases found with
    | ok a => nomatch hm
    | error fault => exact h.failed m (congrArg Except.error (Except.error.inj hm))

theorem Settles.verdict_cons {found : Except Mismatch α} {rest : List (Except Mismatch α)}
    (h : Settles passes first middle found) (hrest : Settles passes middle stop (verdict rest)) :
    Settles passes first stop (verdict (found :: rest)) := by
  have hverdict : verdict (found :: rest) = found >>= fun _ => verdict rest := by
    cases found <;> rfl
  rw [hverdict]
  exact h.bind hrest.le fun _ _ => hrest

/-- One check settles its place, if no other place is in the stretch. -/
theorem settles_check {place : Place} {found : Except Difference α} (hfirst : first ≤ place.rank)
    (hstop : place.rank < stop)
    (honly : ∀ other : Place, first ≤ other.rank → other.rank < stop → other = place)
    (hok : found.isOk = true ↔ passes place) :
    Settles passes first stop (found.mapError (Mismatch.mk place)) := by
  refine ⟨hfirst.trans hstop.le, ?_, ?_⟩
  · intro hfound other hfrom hto
    rw [isOk_mapError] at hfound
    rw [honly other hfrom hto]
    exact hok.mp hfound
  · intro m hm
    cases found with
    | ok a => nomatch hm
    | error difference =>
      obtain rfl : Mismatch.mk place difference = m := Except.error.inj hm
      refine ⟨hfirst, hstop, fun hpasses => Bool.false_ne_true (hok.mpr hpasses), ?_⟩
      intro other hfrom hto
      rw [honly other hfrom (hto.trans hstop)] at hto
      exact absurd hto (lt_irrefl _)

end

variable {actual expected : Value} {tolerance : Double}

/-! ### Steps of comparing -/

theorem settles_count (which : Count) :
    Settles (Passes tolerance actual expected) (toLex (which.number, 0))
      (toLex (which.number + 1, 0)) (count which actual expected) := by
  refine settles_check (le_refl _) ?_ ?_ (isOk_integers_iff_same .missingValue)
  · exact Prod.Lex.toLex_lt_toLex.mpr (Or.inl (Nat.lt_succ_self _))
  · intro other hfrom hto
    exact Place.eq_count_of_stage (Place.of_rank_between hfrom hto).1

/-- How the entries of a part are compared. -/
def compareEntry (tolerance : Double) : Part → Value → Value → Except Difference Unit
  | .vertices => numbers tolerance
  | .indices | .materialIds => fun a e => (integers .invalid a e).map fun _ => ()
  | .materials => textures

theorem isOk_compareEntry (which : Part) (a e : Value) :
    (compareEntry tolerance which a e).isOk = true ↔ Related tolerance which a e := by
  cases which with
  | vertices => exact isOk_numbers
  | indices | materialIds =>
    rw [compareEntry, isOk_map]
    exact isOk_integers_iff_same .invalid
  | materials => exact isOk_textures_iff_same

theorem entriesFrom_cons (which : Part) (entry : Value → Value → Except Difference Unit)
    (number : Nat) (a e : Value) (as es : List Value) :
    entriesFrom which entry number (a :: as) (e :: es) =
      (entry a e).mapError (Mismatch.mk (.entry which number)) >>= fun _ =>
        entriesFrom which entry (number + 1) as es := by
  rw [entriesFrom]
  cases entry a e <;> rfl

/-- Where a side has no more entries, the places to come have nothing to fail at. -/
theorem settles_noEntries {passes : Place → Prop} {which : Part} {number : Nat}
    (h : ∀ k, passes (.entry which (number + k))) :
    Settles passes (toLex (which.stage + 1, number)) (toLex (which.stage + 2, 0)) (.ok ()) := by
  refine ⟨Prod.Lex.toLex_le_toLex.mpr (Or.inl (Nat.lt_succ_self _)), ?_, fun _ hm => nomatch hm⟩
  intro _ place hfrom hto
  obtain ⟨hstage, hstep⟩ := Place.of_rank_between hfrom hto
  obtain ⟨k, hk⟩ := Nat.exists_eq_add_of_le hstep
  rw [Place.eq_entry_of_stage hstage, hk]
  exact h k

/-- Entries from a number on settle their places from there to the end of the part. -/
theorem settles_entriesFrom {passes : Place → Prop} {which : Part} {number : Nat}
    {as es : List Value}
    (h : ∀ k, passes (.entry which (number + k)) ↔
      ∀ a ∈ as[k]?, ∀ e ∈ es[k]?, Related tolerance which a e) :
    Settles passes (toLex (which.stage + 1, number)) (toLex (which.stage + 2, 0))
      (entriesFrom which (compareEntry tolerance which) number as es) := by
  induction as generalizing es number with
  | nil => exact settles_noEntries fun k => (h k).mpr fun _ ha => nomatch ha
  | cons a as ih =>
    cases es with
    | nil => exact settles_noEntries fun k => (h k).mpr fun _ _ _ he => nomatch he
    | cons e es =>
      have hhere : Related tolerance which a e ↔ passes (.entry which number) := by
        simpa using (h 0).symm
      have hlater : ∀ k, passes (.entry which (number + 1 + k)) ↔
          ∀ a ∈ as[k]?, ∀ e ∈ es[k]?, Related tolerance which a e := by
        intro k
        have hk := h (k + 1)
        rw [← Nat.add_assoc, Nat.add_right_comm] at hk
        exact hk
      have hcheck : Settles passes (toLex (which.stage + 1, number))
          (toLex (which.stage + 1, number + 1))
          ((compareEntry tolerance which a e).mapError (Mismatch.mk (.entry which number))) := by
        refine settles_check (le_refl _) ?_ ?_ ((isOk_compareEntry which a e).trans hhere)
        · exact Prod.Lex.toLex_lt_toLex.mpr (Or.inr ⟨rfl, Nat.lt_succ_self _⟩)
        · intro other hfrom hto
          exact Place.eq_of_rank_between hfrom hto
      rw [entriesFrom_cons]
      exact hcheck.bind (ih hlater).le fun _ _ => ih hlater

theorem isOk_bothLists {which : Part} :
    (bothLists which (actual.get "mesh") (expected.get "mesh")).isOk = true ↔
      Passes tolerance actual expected (.part which) := by
  constructor
  · intro hok
    cases hlists : bothLists which (actual.get "mesh") (expected.get "mesh") with
    | ok found => exact ⟨found.1, found.2, bothLists_eq_ok.mp hlists⟩
    | error difference =>
      rw [hlists] at hok
      exact absurd hok Bool.false_ne_true
  · rintro ⟨as, es, hboth⟩
    rw [bothLists_eq_ok.mpr hboth]
    rfl

/-- A part settles its lists and its entries. -/
theorem settles_part (which : Part) :
    Settles (Passes tolerance actual expected) (toLex (which.stage, 0))
      (toLex (which.stage + 2, 0))
      (part which (compareEntry tolerance which) (actual.get "mesh") (expected.get "mesh")) := by
  have hlists : Settles (Passes tolerance actual expected) (toLex (which.stage, 0))
      (toLex (which.stage + 1, 0))
      ((bothLists which (actual.get "mesh") (expected.get "mesh")).mapError
        (Mismatch.mk (.part which))) := by
    refine settles_check (le_refl _) ?_ ?_ isOk_bothLists
    · exact Prod.Lex.toLex_lt_toLex.mpr (Or.inl (Nat.lt_succ_self _))
    · intro other hfrom hto
      exact Place.eq_part_of_stage (Place.of_rank_between hfrom hto).1
  rw [part_eq]
  refine hlists.bind ?_ ?_
  · exact Prod.Lex.toLex_le_toLex.mpr (Or.inl (Nat.lt_succ_self _))
  · intro found hfound
    obtain ⟨ha, he, _⟩ := bothLists_eq_ok.mp ((mapError_eq_ok _).mp hfound)
    refine Settles.map (settles_entriesFrom ?_) _
    intro k
    simp only [Passes, entryAt, entriesOf, ha, he, Option.bind_some, Nat.zero_add]

/-- A comparison goes through all places. -/
theorem settles_run :
    Settles (Passes tolerance actual expected) (toLex (0, 0)) Place.rankEnd
      (run actual expected tolerance) :=
  ((settles_count .vertices).map _).verdict_cons <|
    ((settles_count .indices).map _).verdict_cons <|
    ((settles_count .triangles).map _).verdict_cons <|
    ((settles_count .materials).map _).verdict_cons <|
    ((settles_part .vertices).map _).verdict_cons <|
    ((settles_part .indices).map _).verdict_cons <|
    ((settles_part .materialIds).map _).verdict_cons <|
    ((settles_part .materials).map _).verdict_cons <|
    settles_nothing _ _ _

end RenderMesh.Compare
