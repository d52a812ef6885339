import Mathlib.Data.List.Forall2
import RenderMesh.Compare
import RenderMesh.Proofs.Outcome

/-!
# What comparing accepts

Two values agree when each check of the list does, and each check is a condition on what the values
hold under a name: the same integer, numbers within the tolerance, the same texture, lists of one
length with such entries.
-/

namespace RenderMesh.Compare

open Json (Value)

section

variable {ε ε' α β : Type}

theorem isOk_map (f : α → β) (found : Except ε α) : (found.map f).isOk = found.isOk := by
  cases found <;> rfl

theorem isOk_mapError (f : ε → ε') (found : Except ε α) :
    (found.mapError f).isOk = found.isOk := by
  cases found <;> rfl

theorem isOk_iff {found : Except ε Unit} : found.isOk = true ↔ found = .ok () := by
  cases found with
  | ok _ => exact iff_of_true rfl rfl
  | error _ => exact iff_of_false Bool.false_ne_true fun h => nomatch h

theorem isOk_bind (found : Except ε α) (next : α → Except ε β) :
    (found >>= next).isOk = true ↔ ∃ a, found = .ok a ∧ (next a).isOk = true := by
  cases found with
  | ok a => exact ⟨fun h => ⟨a, rfl, h⟩, fun ⟨_, heq, h⟩ => Except.ok.inj heq ▸ h⟩
  | error fault => exact iff_of_false Bool.false_ne_true fun ⟨_, heq, _⟩ => nomatch heq

theorem need_eq_ok {difference : Difference} {held : Option α} {a : α} :
    need difference held = .ok a ↔ held = some a := by
  cases held <;> simp [need]

theorem isOk_ite {condition : Prop} [Decidable condition] (a : α) (fault : ε) :
    (if condition then .ok a else .error fault : Except ε α).isOk = true ↔ condition := by
  split
  next h => exact iff_of_true rfl h
  next h => exact iff_of_false Bool.false_ne_true h

theorem isOk_verdict (checks : List (Except ε α)) :
    (verdict checks).isOk = checks.all Except.isOk := by
  induction checks with
  | nil => rfl
  | cons check rest ih =>
    cases check with
    | ok a => exact ih
    | error fault => rfl

end

/-! ### Two entries -/

variable {actual expected : Value} {tolerance : Double}

theorem isOk_integers (missing : Side → Difference) :
    (integers missing actual expected).isOk = true ↔
      ∃ i, actual.integer? = some i ∧ expected.integer? = some i := by
  simp only [integers, isOk_bind, need_eq_ok]
  constructor
  · rintro ⟨a, ha, e, he, hsame⟩
    obtain rfl := (isOk_ite _ _).mp hsame
    exact ⟨a, ha, he⟩
  · rintro ⟨i, ha, he⟩
    exact ⟨i, ha, i, he, (isOk_ite _ _).mpr rfl⟩

theorem isOk_numbers :
    (numbers tolerance actual expected).isOk = true ↔
      ∃ x y, actual.double? = some x ∧ expected.double? = some y ∧
        tolerance.less (x.distance y) = false := by
  simp only [numbers, isOk_bind, need_eq_ok]
  constructor
  · rintro ⟨x, hx, y, hy, hnear⟩
    refine ⟨x, y, hx, hy, ?_⟩
    cases hless : tolerance.less (x.distance y) with
    | false => rfl
    | true =>
      rw [hless] at hnear
      exact nomatch hnear
  · rintro ⟨x, y, hx, hy, hnear⟩
    refine ⟨x, hx, y, hy, ?_⟩
    rw [hnear]
    rfl

theorem isOk_textures :
    (textures actual expected).isOk = true ↔ texture actual = texture expected :=
  isOk_ite _ _

/-! ### Parts of a summary -/

theorem isOk_count {which : Count} :
    (count which actual expected).isOk = true ↔
      ∃ i, Value.integer? (actual.get which.name) = some i ∧
        Value.integer? (expected.get which.name) = some i := by
  rw [count, isOk_mapError, isOk_integers]

variable {which : Part} {entry : Value → Value → Except Difference Unit}

theorem isOk_entriesFrom {as es : List Value} (h : as.length = es.length) (number : Nat) :
    (entriesFrom which entry number as es).isOk = true ↔
      List.Forall₂ (fun a e => (entry a e).isOk = true) as es := by
  induction as generalizing es number with
  | nil =>
    obtain rfl := List.eq_nil_of_length_eq_zero h.symm
    exact iff_of_true rfl .nil
  | cons a as ih =>
    obtain ⟨e, es, rfl⟩ := List.exists_cons_of_length_eq_add_one h.symm
    rw [List.forall₂_cons, entriesFrom, ← ih (Nat.succ.inj h) (number + 1)]
    cases entry a e with
    | ok _ => exact (and_iff_right rfl).symm
    | error _ => exact iff_of_false Bool.false_ne_true fun hand => Bool.false_ne_true hand.1

/-- The lists of a part on both sides, if they have one length. -/
def bothLists (which : Part) (actual expected : Value) :
    Except Difference (List Value × List Value) := do
  let as ← need (.missingArray .actual) (actual.get which.name).entries?
  let es ← need (.missingArray .expected) (expected.get which.name).entries?
  if as.length = es.length then return (as, es) else throw (.lengths as.length es.length)

theorem bothLists_eq_ok {which : Part} {as es : List Value} :
    bothLists which actual expected = .ok (as, es) ↔
      (actual.get which.name).entries? = some as ∧ (expected.get which.name).entries? = some es ∧
        as.length = es.length := by
  simp only [bothLists, bind_eq_ok, need_eq_ok]
  constructor
  · rintro ⟨as', ha, es', he, h⟩
    split at h
    next hlength =>
      obtain ⟨rfl, rfl⟩ := Prod.mk.inj (Except.ok.inj h)
      exact ⟨ha, he, hlength⟩
    next => nomatch h
  · rintro ⟨ha, he, hlength⟩
    exact ⟨as, ha, es, he, if_pos hlength⟩

theorem part_eq (which : Part) (entry : Value → Value → Except Difference Unit)
    (actual expected : Value) :
    part which entry actual expected =
      (bothLists which actual expected).mapError (Mismatch.mk (.part which)) >>= fun found =>
        (entriesFrom which entry 0 found.1 found.2).map fun _ => found.1.length := by
  unfold part bothLists
  cases (actual.get which.name).entries? with
  | none => rfl
  | some as =>
    cases (expected.get which.name).entries? with
    | none => rfl
    | some es =>
      by_cases h : as.length = es.length
      · simp only [need, Except.mapError, bind, Except.bind, pure, Except.pure, if_pos h]
        cases entriesFrom which entry 0 as es <;> rfl
      · simp only [need, Except.mapError, bind, Except.bind, if_neg h]
        rfl

theorem isOk_part :
    (part which entry actual expected).isOk = true ↔
      ∃ as es, (actual.get which.name).entries? = some as ∧
        (expected.get which.name).entries? = some es ∧
        List.Forall₂ (fun a e => (entry a e).isOk = true) as es := by
  rw [part_eq, isOk_bind]
  constructor
  · rintro ⟨⟨as, es⟩, hfound, hok⟩
    obtain ⟨ha, he, hlength⟩ := bothLists_eq_ok.mp ((mapError_eq_ok _).mp hfound)
    rw [isOk_map] at hok
    exact ⟨as, es, ha, he, (isOk_entriesFrom hlength 0).mp hok⟩
  · rintro ⟨as, es, ha, he, hall⟩
    have hlength := hall.length_eq
    refine ⟨(as, es), (mapError_eq_ok _).mpr (bothLists_eq_ok.mpr ⟨ha, he, hlength⟩), ?_⟩
    rw [isOk_map]
    exact (isOk_entriesFrom hlength 0).mpr hall

/-! ### Summaries -/

theorem isOk_run :
    (run actual expected tolerance).isOk = true ↔
      (∀ which, (count which actual expected).isOk = true) ∧
      (part .vertices (numbers tolerance) (actual.get "mesh") (expected.get "mesh")).isOk = true ∧
      (∀ which ∈ [Part.indices, .materialIds],
        (part which (fun a e => (integers .invalid a e).map fun _ => ()) (actual.get "mesh")
          (expected.get "mesh")).isOk = true) ∧
      (part .materials textures (actual.get "mesh") (expected.get "mesh")).isOk = true := by
  have hcounts : (∀ which, (count which actual expected).isOk = true) ↔
      ∀ which ∈ [Count.vertices, .indices, .triangles, .materials],
        (count which actual expected).isOk = true := by
    refine ⟨fun h which _ => h which, fun h which => h which ?_⟩
    cases which <;> simp
  rw [run, isOk_verdict, hcounts]
  simp only [checks, List.all_append, List.all_cons, List.all_nil, List.map_cons, List.map_nil,
    isOk_map, Bool.and_true, Bool.and_eq_true, List.forall_mem_cons, List.not_mem_nil,
    false_implies, implies_true, and_true, and_assoc]

end RenderMesh.Compare
