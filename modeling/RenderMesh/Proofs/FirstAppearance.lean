import Mathlib.Data.List.Induction
import Mathlib.Data.List.Perm.Subperm

/-!
# Order of first appearance

A list without its repetitions keeps every member at its first place. Appending a member that was
there before changes nothing; a new one comes last. So numbers by first appearance never change.
-/

namespace RenderMesh.FirstAppearance

variable {α : Type} [BEq α] [LawfulBEq α]

theorem eraseDups_concat_of_mem {l : List α} {a : α} (h : a ∈ l) :
    (l ++ [a]).eraseDups = l.eraseDups := by
  rw [List.eraseDups_append]
  simp [List.removeAll, h]

theorem eraseDups_concat_of_notMem {l : List α} {a : α} (h : a ∉ l) :
    (l ++ [a]).eraseDups = l.eraseDups ++ [a] := by
  rw [List.eraseDups_append]
  simp [List.removeAll, h, List.eraseDups_cons]

theorem nodup_eraseDups (l : List α) : l.eraseDups.Nodup := by
  induction l using List.reverseRecOn with
  | nil => exact List.nodup_nil
  | append_singleton l a ih =>
    by_cases h : a ∈ l
    · rw [eraseDups_concat_of_mem h]
      exact ih
    · rw [eraseDups_concat_of_notMem h]
      have ha : a ∉ l.eraseDups := fun hm => h (List.mem_eraseDups.mp hm)
      refine List.nodup_append.mpr ⟨ih, List.pairwise_singleton _ a, ?_⟩
      intro b hb c hc he
      rw [he, List.mem_singleton.mp hc] at hb
      exact ha hb

/-- A member that was there before keeps its number. -/
theorem idxOf_eraseDups_append_of_mem {l : List α} {a : α} (h : a ∈ l) (more : List α) :
    (l ++ more).eraseDups.idxOf a = l.eraseDups.idxOf a := by
  rw [List.eraseDups_append, List.idxOf_append, if_pos (List.mem_eraseDups.mpr h)]

/-- A new member takes the next number. -/
theorem idxOf_eraseDups_concat_self {l : List α} {a : α} (ha : a ∉ l) :
    (l ++ [a]).eraseDups.idxOf a = l.eraseDups.length := by
  have hn : a ∉ l.eraseDups := fun hm => ha (List.mem_eraseDups.mp hm)
  rw [eraseDups_concat_of_notMem ha, List.idxOf_append, if_neg hn, List.idxOf_cons_self,
    Nat.zero_add]

theorem idxOf_eraseDups_of_getElem? {l : List α} {k : Nat} {a : α}
    (h : l.eraseDups[k]? = some a) : l.eraseDups.idxOf a = k := by
  obtain ⟨hk, ha⟩ := List.getElem?_eq_some_iff.mp h
  rw [← ha]
  exact (nodup_eraseDups l).idxOf_getElem k hk

theorem getElem?_idxOf_eraseDups {l : List α} {a : α} (h : a ∈ l) :
    l.eraseDups[l.eraseDups.idxOf a]? = some a := by
  have hk := List.idxOf_lt_length_of_mem (List.mem_eraseDups.mpr h)
  rw [List.getElem?_eq_getElem hk, List.getElem_idxOf]

/-- Members are numbered as they come up. -/
theorem pairwise_idxOf_eraseDups (l : List α) :
    l.eraseDups.Pairwise fun a b => l.idxOf a < l.idxOf b := by
  induction l using List.reverseRecOn with
  | nil => exact List.Pairwise.nil
  | append_singleton l a ih =>
    have hkept : ∀ b ∈ l, (l ++ [a]).idxOf b = l.idxOf b := by
      intro b hb
      rw [List.idxOf_append, if_pos hb]
    have hold : l.eraseDups.Pairwise fun b c => (l ++ [a]).idxOf b < (l ++ [a]).idxOf c := by
      refine ih.imp_of_mem ?_
      intro b c hb hc hlt
      rw [hkept b (List.mem_eraseDups.mp hb), hkept c (List.mem_eraseDups.mp hc)]
      exact hlt
    by_cases h : a ∈ l
    · rw [eraseDups_concat_of_mem h]
      exact hold
    · rw [eraseDups_concat_of_notMem h, List.pairwise_append]
      refine ⟨hold, List.pairwise_singleton _ a, ?_⟩
      intro b hb c hc
      have hbl : b ∈ l := List.mem_eraseDups.mp hb
      have hlt := List.idxOf_lt_length_of_mem hbl
      rw [List.mem_singleton.mp hc, hkept b hbl, List.idxOf_append, if_neg h]
      omega

theorem length_eraseDups_le (l : List α) : l.eraseDups.length ≤ l.length := by
  induction l using List.reverseRecOn with
  | nil => exact Nat.le_refl _
  | append_singleton l a ih =>
    by_cases h : a ∈ l
    · rw [eraseDups_concat_of_mem h, List.length_append]
      omega
    · rw [eraseDups_concat_of_notMem h, List.length_append, List.length_append]
      omega

theorem length_eraseDups_le_of_subset {l k : List α} (h : l ⊆ k) :
    l.eraseDups.length ≤ k.eraseDups.length := by
  refine ((nodup_eraseDups l).subperm ?_).length_le
  intro a ha
  exact List.mem_eraseDups.mpr (h (List.mem_eraseDups.mp ha))

/-- Members that two lists share are counted once in both together. -/
theorem length_eraseDups_append_le (l k : List α) :
    (l ++ k).eraseDups.length ≤ l.eraseDups.length + k.eraseDups.length := by
  rw [← List.length_append]
  refine ((nodup_eraseDups (l ++ k)).subperm ?_).length_le
  intro a ha
  rw [List.mem_eraseDups, List.mem_append] at ha
  rw [List.mem_append, List.mem_eraseDups, List.mem_eraseDups]
  exact ha

/-- Renaming members apart keeps their order. -/
theorem eraseDups_map {β : Type} [BEq β] [LawfulBEq β] {f : α → β} {l : List α}
    (hf : ∀ a ∈ l, ∀ b ∈ l, f a = f b → a = b) :
    (l.map f).eraseDups = l.eraseDups.map f := by
  induction l using List.reverseRecOn with
  | nil => rfl
  | append_singleton l a ih =>
    have hl : ∀ b ∈ l, b ∈ l ++ [a] := fun b hb => List.mem_append_left _ hb
    have ha : a ∈ l ++ [a] := List.mem_append_right _ (List.mem_singleton_self a)
    have hi := ih fun b hb c hc => hf b (hl b hb) c (hl c hc)
    rw [List.map_append, List.map_singleton]
    by_cases h : a ∈ l
    · rw [eraseDups_concat_of_mem h, eraseDups_concat_of_mem (List.mem_map_of_mem h), hi]
    · have hn : f a ∉ l.map f := by
        intro hm
        obtain ⟨b, hb, he⟩ := List.mem_map.mp hm
        exact h (hf b (hl b hb) a ha he ▸ hb)
      rw [eraseDups_concat_of_notMem h, eraseDups_concat_of_notMem hn, hi, List.map_append,
        List.map_singleton]

/-- Renaming members apart keeps their numbers. -/
theorem idxOf_eraseDups_map {β : Type} [BEq β] [LawfulBEq β] {f : α → β} {l : List α}
    (hf : ∀ a ∈ l, ∀ b ∈ l, f a = f b → a = b) {a : α} (ha : a ∈ l) :
    (l.map f).eraseDups.idxOf (f a) = l.eraseDups.idxOf a := by
  apply idxOf_eraseDups_of_getElem?
  rw [eraseDups_map hf, List.getElem?_map, getElem?_idxOf_eraseDups ha, Option.map_some]

theorem perm_eraseDups {l₁ l₂ : List α} (h : l₁.Perm l₂) : l₁.eraseDups.Perm l₂.eraseDups := by
  apply (List.perm_ext_iff_of_nodup (nodup_eraseDups l₁) (nodup_eraseDups l₂)).mpr
  intro a
  rw [List.mem_eraseDups, List.mem_eraseDups, h.mem_iff]

end RenderMesh.FirstAppearance
