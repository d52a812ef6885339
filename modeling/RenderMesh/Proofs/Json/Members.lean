import Mathlib.Data.List.Induction
import RenderMesh.Json.Value

/-!
# Sorted members

Members come out in ascending order of their names, each name with the last value that was given for
it. Members in ascending order stay as they are.
-/

namespace RenderMesh.Json

variable {α : Type}

/-- Members in ascending order of their names, each name once. -/
def Ascending (members : List (String × α)) : Prop := members.Pairwise fun a b => a.1 < b.1

theorem mem_insertMember {name : String} {value : α} {members : List (String × α)}
    {member : String × α} (h : member ∈ insertMember name value members) :
    member = (name, value) ∨ member ∈ members := by
  induction members with
  | nil => exact Or.inl (List.mem_singleton.mp h)
  | cons other rest ih =>
    rw [insertMember] at h
    split at h
    · exact (List.mem_cons.mp h)
    · split at h
      · exact (List.mem_cons.mp h).imp id (List.mem_cons_of_mem _)
      · rcases List.mem_cons.mp h with rfl | hrest
        · exact Or.inr List.mem_cons_self
        · exact (ih hrest).imp id (List.mem_cons_of_mem _)

theorem Ascending.insertMember {members : List (String × α)} (h : Ascending members) (name : String)
    (value : α) : Ascending (insertMember name value members) := by
  induction members with
  | nil => exact List.pairwise_singleton _ _
  | cons other rest ih =>
    obtain ⟨hother, hrest⟩ := List.pairwise_cons.mp h
    rw [Json.insertMember]
    split
    next hlt =>
      refine List.pairwise_cons.mpr ⟨?_, h⟩
      intro m hm
      rcases List.mem_cons.mp hm with rfl | hm
      · exact hlt
      · exact String.lt_trans hlt (hother m hm)
    next hlt =>
      split
      next heq => exact List.pairwise_cons.mpr ⟨fun m hm => heq ▸ hother m hm, hrest⟩
      next hne =>
        refine List.pairwise_cons.mpr ⟨?_, ih hrest⟩
        intro m hm
        rcases mem_insertMember hm with rfl | hm
        · rcases Std.lt_trichotomy name other.1 with h | h | h
          · exact absurd h hlt
          · exact absurd h hne
          · exact h
        · exact hother m hm

theorem insertMember_of_forall_lt {members : List (String × α)} {name : String} (value : α)
    (h : ∀ m ∈ members, m.1 < name) :
    insertMember name value members = members ++ [(name, value)] := by
  induction members with
  | nil => rfl
  | cons other rest ih =>
    have hother := h other List.mem_cons_self
    have hne : name ≠ other.1 := by
      rintro rfl
      exact String.lt_irrefl _ hother
    rw [insertMember, if_neg (String.lt_asymm hother), if_neg hne,
      ih fun m hm => h m (List.mem_cons_of_mem _ hm)]
    rfl

theorem lookup_cons_eq (name key : String) (value : α) (members : List (String × α)) :
    ((name, value) :: members).lookup key =
      if key = name then some value else members.lookup key := by
  rw [List.lookup_cons]
  by_cases hk : key = name
  · simp [hk]
  · simp [beq_eq_false_iff_ne.mpr hk, hk]

theorem lookup_insertMember (name key : String) (value : α) (members : List (String × α)) :
    (insertMember name value members).lookup key =
      if key = name then some value else members.lookup key := by
  induction members with
  | nil => exact lookup_cons_eq name key value []
  | cons other rest ih =>
    obtain ⟨otherName, old⟩ := other
    rw [insertMember]
    split
    · exact lookup_cons_eq name key value _
    · split
      next heq =>
        rw [lookup_cons_eq, lookup_cons_eq, heq]
        split <;> rfl
      next hne =>
        rw [lookup_cons_eq, lookup_cons_eq, ih]
        by_cases hk : key = otherName
        · rw [if_pos hk, if_neg (hk ▸ Ne.symm hne), if_pos hk]
        · rw [if_neg hk, if_neg hk]

theorem sortedMembers_concat (members : List (String × α)) (member : String × α) :
    sortedMembers (members ++ [member]) =
      insertMember member.1 member.2 (sortedMembers members) := List.foldl_append

theorem ascending_sortedMembers (members : List (String × α)) :
    Ascending (sortedMembers members) := by
  induction members using List.reverseRecOn with
  | nil => exact List.Pairwise.nil
  | append_singleton members member ih =>
    rw [sortedMembers_concat]
    exact ih.insertMember _ _

theorem mem_of_mem_sortedMembers {members : List (String × α)} {member : String × α}
    (h : member ∈ sortedMembers members) : member ∈ members := by
  induction members using List.reverseRecOn with
  | nil => exact h
  | append_singleton members last ih =>
    rw [sortedMembers_concat] at h
    rcases mem_insertMember h with rfl | hm
    · exact List.mem_append_right _ (List.mem_singleton_self _)
    · exact List.mem_append_left _ (ih hm)

theorem sortedMembers_of_ascending {members : List (String × α)} (h : Ascending members) :
    sortedMembers members = members := by
  induction members using List.reverseRecOn with
  | nil => rfl
  | append_singleton members last ih =>
    obtain ⟨hmembers, _, hlast⟩ := List.pairwise_append.mp h
    rw [sortedMembers_concat, ih hmembers]
    exact insertMember_of_forall_lt _ fun m hm => hlast m hm last (List.mem_singleton_self _)

/-- A name that is not among the members is put beside them. -/
theorem insertMember_perm {name : String} {members : List (String × α)} (value : α)
    (h : name ∉ members.map Prod.fst) :
    (insertMember name value members).Perm ((name, value) :: members) := by
  induction members with
  | nil => exact .refl _
  | cons other rest ih =>
    rw [List.map_cons, List.mem_cons, not_or] at h
    rw [insertMember]
    split
    · exact .refl _
    · rw [if_neg h.1]
      exact ((ih h.2).cons other).trans (.swap _ _ _)

/-- Members of different names are put in another order. -/
theorem sortedMembers_perm {members : List (String × α)} (h : (members.map Prod.fst).Nodup) :
    (sortedMembers members).Perm members := by
  induction members using List.reverseRecOn with
  | nil => exact .refl _
  | append_singleton members last ih =>
    rw [List.map_append, List.nodup_append] at h
    obtain ⟨hmembers, _, hlast⟩ := h
    have hsorted := ih hmembers
    have hnew : last.1 ∉ (sortedMembers members).map Prod.fst := by
      rw [(hsorted.map Prod.fst).mem_iff]
      exact fun hin => hlast _ hin _ (List.mem_singleton_self _) rfl
    rw [sortedMembers_concat]
    exact ((insertMember_perm last.2 hnew).trans (hsorted.cons last)).trans
      (List.perm_append_singleton last members).symm

/-- Of equal names the last counts. -/
theorem lookup_sortedMembers (members : List (String × α)) (key : String) :
    (sortedMembers members).lookup key = members.reverse.lookup key := by
  induction members using List.reverseRecOn with
  | nil => rfl
  | append_singleton members last ih =>
    rw [sortedMembers_concat, lookup_insertMember, ih, List.reverse_append]
    exact (lookup_cons_eq last.1 key last.2 _).symm

end RenderMesh.Json
