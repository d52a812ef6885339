import Mathlib.Logic.Function.Basic
import RenderMesh.Proofs.Material.Classes

/-!
# Merging materials in pairs

Classes can also be found in place: all pairs of places are looked at in order, and the later one of
a pair of similar materials takes the label of the earlier one. Nothing is propagated, and still
every label ends as the leader of its class: similarity passes on, so a leader meets all members of
its class itself, and no later pair of the class changes a label again.
-/

namespace RenderMesh.Material

/-- The labels after places `i` and `r` were looked at. -/
def mergePair (materials : List Material) (i : Nat) (labels : Nat → Nat) (r : Nat) : Nat → Nat :=
  if labels i ≠ labels r ∧ similarAt materials i r = true then
    Function.update labels r (labels i)
  else labels

/-- The labels after a place was looked at with all later ones. -/
def mergeRow (materials : List Material) (labels : Nat → Nat) (i : Nat) : Nat → Nat :=
  (List.range' (i + 1) (materials.length - (i + 1))).foldl (mergePair materials i) labels

/-- The labels after all pairs, when every place has itself as its label at first. -/
def mergedLabels (materials : List Material) : List Nat :=
  (List.range materials.length).map ((List.range materials.length).foldl (mergeRow materials) id)

variable {materials : List Material}

theorem mergePair_apply (i : Nat) (labels : Nat → Nat) (r j : Nat) :
    mergePair materials i labels r j =
      if j = r ∧ similarAt materials i j = true then labels i else labels j := by
  unfold mergePair
  by_cases hj : j = r
  · subst hj
    by_cases hs : similarAt materials i j = true
    · by_cases hl : labels i = labels j <;> simp [hs, hl]
    · simp [hs]
  · split <;> simp [hj]

theorem foldl_mergePair_apply {i : Nat} (labels : Nat → Nat) {later : List Nat} (hi : i ∉ later)
    (j : Nat) : later.foldl (mergePair materials i) labels j =
      if j ∈ later ∧ similarAt materials i j = true then labels i else labels j := by
  induction later using List.reverseRecOn generalizing j with
  | nil => simp
  | append_singleton later r ih =>
    rw [List.mem_append, List.mem_singleton, not_or] at hi
    have hlabel : later.foldl (mergePair materials i) labels i = labels i := by
      rw [ih hi.1, if_neg fun h => hi.1 h.1]
    rw [List.foldl_append, List.foldl_cons, List.foldl_nil, mergePair_apply, hlabel, ih hi.1]
    by_cases hr : j = r
    · by_cases hs : similarAt materials i r = true <;> simp [hr, hs]
    · simp [hr]

theorem mergeRow_apply (labels : Nat → Nat) {i j : Nat} (hj : j < materials.length) :
    mergeRow materials labels i j =
      if i < j ∧ similarAt materials i j = true then labels i else labels j := by
  have hi : i ∉ List.range' (i + 1) (materials.length - (i + 1)) := by
    rw [List.mem_range'_1]
    omega
  have hlater : j ∈ List.range' (i + 1) (materials.length - (i + 1)) ↔ i < j := by
    rw [List.mem_range'_1]
    omega
  rw [mergeRow, foldl_mergePair_apply labels hi]
  simp only [hlater]

/-- After the rows before `k`, places have the labels of their leaders as far as these are before
`k`. A row whose place leads nothing changes nothing. -/
theorem foldl_mergeRow_apply {k : Nat} (hk : k ≤ materials.length) {j : Nat}
    (hj : j < materials.length) : (List.range k).foldl (mergeRow materials) id j =
      if leader materials j < k then leader materials j else j := by
  induction k generalizing j with
  | zero => rfl
  | succ k ih =>
    have hkl : k < materials.length := hk
    have hle := leader_le_self materials k
    rw [List.range_succ, List.foldl_append, List.foldl_cons, List.foldl_nil, mergeRow_apply _ hj,
      ih (Nat.le_of_lt hk) hj, ih (Nat.le_of_lt hk) hkl]
    have hlabel : (if leader materials k < k then leader materials k else k) =
        leader materials k := by
      split <;> omega
    rw [hlabel]
    by_cases hs : k < j ∧ similarAt materials k j = true
    · have hsame : leader materials k = leader materials j := leader_eq_iff.mpr (Or.inr hs.2)
      rw [if_pos hs, if_pos (by omega), hsame]
    · -- Then `k` leads `j` only if it is `j`.
      have hlead : leader materials j = k → j = k := by
        intro he
        have hle := leader_le_self materials j
        rcases he ▸ joined_leader materials j with hkj | hkj
        · exact hkj.symm
        · by_contra hne
          exact hs ⟨by omega, hkj⟩
      rw [if_neg hs]
      split <;> split <;> omega

theorem mergedLabels_eq (materials : List Material) :
    mergedLabels materials = (List.range materials.length).map (leader materials) := by
  apply List.map_congr_left
  intro j hj
  have hlt := List.mem_range.mp hj
  have hle := leader_le_self materials j
  rw [foldl_mergeRow_apply (Nat.le_refl _) hlt, if_pos (by omega)]

/-- Labels appear in the order of the leaders. -/
theorem eraseDups_mergedLabels (materials : List Material) :
    (mergedLabels materials).eraseDups = leaders materials := by
  have hprefix : ∀ k, ((List.range k).map (leader materials)).eraseDups =
      (List.range k).filter fun i => leader materials i = i := by
    intro k
    induction k with
    | zero => rfl
    | succ k ih =>
      rw [List.range_succ, List.map_append, List.filter_append, List.map_singleton,
        List.filter_singleton]
      by_cases he : leader materials k = k
      · have hnew : leader materials k ∉ (List.range k).map (leader materials) := by
          intro hm
          obtain ⟨i, hi, hl⟩ := List.mem_map.mp hm
          have hle := leader_le_self materials i
          have hlt := List.mem_range.mp hi
          omega
        rw [FirstAppearance.eraseDups_concat_of_notMem hnew, ih]
        simp [he]
      · have hold : leader materials k ∈ (List.range k).map (leader materials) := by
          have hle := leader_le_self materials k
          exact List.mem_map.mpr
            ⟨leader materials k, List.mem_range.mpr (by omega), leader_leader materials k⟩
        rw [FirstAppearance.eraseDups_concat_of_mem hold, ih]
        simp [he]
  rw [mergedLabels_eq]
  exact hprefix materials.length

theorem slots_eq_idxOf_mergedLabels (materials : List Material) :
    slots materials =
      (mergedLabels materials).map fun label => (mergedLabels materials).eraseDups.idxOf label := by
  rw [eraseDups_mergedLabels, mergedLabels_eq, List.map_map]
  rfl

end RenderMesh.Material
