import Mathlib.Tactic.Common

/-!
# Lists in order of a key

A list in order of a key is cut by every key into what is smaller, what is equal and what is
greater. Sorting by a key keeps the members of each key in the order given.
-/

namespace RenderMesh.ByKey

variable {α : Type}

/-- A property that holds of whatever stands before a member it holds of cuts a list in two. -/
theorem cut_in_two {p : α → Bool} {l : List α} (h : l.Pairwise fun a b => p b → p a) :
    l = l.filter p ++ l.filter fun a => !p a := by
  induction l with
  | nil => rfl
  | cons a rest ih =>
    obtain ⟨hbefore, hrest⟩ := List.pairwise_cons.mp h
    by_cases ha : p a
    · simp [ha, ← ih hrest]
    · have hafter : ∀ b ∈ a :: rest, ¬p b := by
        intro b hb
        rcases List.mem_cons.mp hb with rfl | hb
        · exact ha
        · exact fun hp => ha (hbefore b hb hp)
      have hnone := List.filter_eq_nil_iff.mpr hafter
      have hall : (a :: rest).filter (fun b => !p b) = a :: rest := by
        simpa [List.filter_eq_self] using hafter
      rw [hnone, hall, List.nil_append]

variable {β : Type} [LE β] [Std.IsLinearOrder β] (key : α → β)

/-- Members of a smaller key, of the key and of a greater one follow each other. -/
theorem split [LT β] [Std.LawfulOrderLT β] [DecidableLT β] [DecidableEq β] {l : List α}
    (h : l.Pairwise fun a b => key a ≤ key b) (k : β) :
    l = (l.filter fun a => key a < k) ++
      ((l.filter fun a => key a = k) ++ l.filter fun a => k < key a) := by
  have hsmaller : l.Pairwise fun a b => decide (key b < k) → decide (key a < k) := by
    refine h.imp ?_
    intro a b hab hb
    exact decide_eq_true (Std.lt_of_le_of_lt hab (of_decide_eq_true hb))
  have hequal : (l.filter fun a => !decide (key a < k)).Pairwise
      fun a b => decide (key b = k) → decide (key a = k) := by
    refine (h.filter _).imp_of_mem ?_
    intro a b ha _ hab hb
    have hge : k ≤ key a := by simpa [Std.not_lt] using (List.mem_filter.mp ha).2
    rw [of_decide_eq_true hb] at hab
    exact decide_eq_true (Std.le_antisymm hab hge)
  have heq : ∀ a, (decide (key a = k) && !decide (key a < k)) = decide (key a = k) := by
    intro a
    by_cases he : key a = k <;> simp [he, Std.lt_irrefl]
  have hgt : ∀ a, (!decide (key a = k) && !decide (key a < k)) = decide (k < key a) := by
    intro a
    rw [Bool.eq_iff_iff]
    simp only [Bool.and_eq_true, Bool.not_eq_true', decide_eq_false_iff_not, decide_eq_true_eq,
      Std.not_lt]
    constructor
    · rintro ⟨hne, hle⟩
      exact Std.lt_of_le_of_ne hle (Ne.symm hne)
    · intro hlt
      exact ⟨fun he => Std.lt_irrefl (he ▸ hlt), Std.le_of_lt hlt⟩
  have hrest := cut_in_two hequal
  simp only [List.filter_filter, heq, hgt] at hrest
  rw [← hrest]
  exact cut_in_two hsmaller

variable [DecidableLE β]

theorem le_trans (a b c : α) (hab : decide (key a ≤ key b) = true)
    (hbc : decide (key b ≤ key c) = true) : decide (key a ≤ key c) = true :=
  decide_eq_true (Std.le_trans (of_decide_eq_true hab) (of_decide_eq_true hbc))

theorem le_total (a b : α) : (decide (key a ≤ key b) || decide (key b ≤ key a)) = true := by
  simp only [Bool.or_eq_true, decide_eq_true_eq]
  exact Std.le_total

theorem pairwise_mergeSort (l : List α) :
    (l.mergeSort fun a b => key a ≤ key b).Pairwise fun a b => key a ≤ key b :=
  (List.pairwise_mergeSort (le_trans key) (le_total key) l).imp of_decide_eq_true

/-- Sorting is stable. -/
theorem filter_mergeSort [DecidableEq β] (l : List α) (k : β) :
    ((l.mergeSort fun a b => key a ≤ key b).filter fun a => key a = k) =
      l.filter fun a => key a = k := by
  have hties : (l.filter fun a => key a = k).Pairwise fun a b => decide (key a ≤ key b) = true := by
    refine List.pairwise_of_forall_mem_list ?_
    intro a ha b hb
    rw [of_decide_eq_true (List.mem_filter.mp ha).2, of_decide_eq_true (List.mem_filter.mp hb).2]
    exact decide_eq_true (Std.le_refl k)
  -- The members of a key are a sorted sublist, so they come out in their order, and no others do.
  have hkept := (List.sublist_mergeSort (le_trans key) (le_total key) hties
    List.filter_sublist).filter fun a => key a = k
  have hlength := ((List.mergeSort_perm l fun a b => key a ≤ key b).filter
    fun a => key a = k).length_eq
  simp only [List.filter_filter, Bool.and_self] at hkept
  exact (hkept.eq_of_length hlength.symm).symm

end RenderMesh.ByKey
