import RenderMesh.Json.Codec
import RenderMesh.Proofs.Json.Number
import RenderMesh.Proofs.Json.Value

/-!
# Documents as values

What is written of a known type is a value of members in order: they are sorted, what is not finite
is null, and a list or an object is one level deeper than what it holds. Its numbers are the
naturals of the type and its finite numbers, widened.
-/

namespace RenderMesh.Json

open Value (Shaped)

namespace Document

variable {kind : Number → Prop} {depth : Nat}

theorem entryValues_eq (entries : List Document) : entryValues entries = entries.map toValue := by
  induction entries with
  | nil => rfl
  | cons entry rest ih => rw [entryValues, ih, List.map_cons]

theorem memberValues_eq (members : List (String × Document)) :
    memberValues members = members.map fun member => (member.1, member.2.toValue) := by
  induction members with
  | nil => rfl
  | cons member rest ih =>
    obtain ⟨name, value⟩ := member
    rw [memberValues, ih, List.map_cons]

/-- Of equal names the last counts. -/
theorem get_toValue (members : List (String × Document)) (name : String) :
    (toValue (.object members)).get name =
      ((members.reverse.lookup name).map toValue).getD .null := by
  have hlookup : ∀ list : List (String × Document),
      (list.map fun member => (member.1, member.2.toValue)).lookup name =
        (list.lookup name).map toValue := by
    intro list
    induction list with
    | nil => rfl
    | cons member rest ih =>
      obtain ⟨other, value⟩ := member
      rw [List.map_cons, lookup_cons_eq, lookup_cons_eq, ih]
      split <;> rfl
  rw [toValue, memberValues_eq, Tree.get, lookup_sortedMembers, ← List.map_reverse, hlookup]

theorem shaped_ofNat {n : Nat} (h : kind (.integer n)) : Shaped kind depth (ofNat n).toValue :=
  .number h

theorem shaped_ofSingle {x : Single} (h : x.isFinite = true → kind (.double x.widen)) :
    Shaped kind depth (ofSingle x).toValue := by
  unfold ofSingle
  split
  next hx => exact .number (h hx)
  next => exact .null

theorem shaped_array {entries : List Document}
    (h : ∀ entry ∈ entries, Shaped kind depth entry.toValue) :
    Shaped kind (depth + 1) (toValue (.array entries)) := by
  rw [toValue, entryValues_eq]
  apply Shaped.array
  intro value hv
  obtain ⟨entry, he, rfl⟩ := List.mem_map.mp hv
  exact h entry he

theorem shaped_object {members : List (String × Document)}
    (h : ∀ member ∈ members, Shaped kind depth member.2.toValue) :
    Shaped kind (depth + 1) (toValue (.object members)) := by
  rw [toValue, memberValues_eq]
  apply Shaped.object (ascending_sortedMembers _)
  intro found hf
  obtain ⟨member, hm, rfl⟩ := List.mem_map.mp (mem_of_mem_sortedMembers hf)
  exact h member hm

end Document

/-! ### Kinds of numbers -/

/-- A kind with all naturals of 64 bits, and with numbers of four bytes as far as they are
finite. -/
structure Number.Covers (kind : Number → Prop) (floats : List Single) : Prop where
  natural (n : Nat) : n < UInt64.size → kind (.integer n)
  single : ∀ x ∈ floats, x.isFinite = true → kind (.double x.widen)

namespace Number.Covers

variable {kind : Number → Prop} {floats few : List Single}

theorem mono (h : Covers kind floats) (hfew : few ⊆ floats) : Covers kind few :=
  ⟨h.natural, fun x hx => h.single x (hfew hx)⟩

/-- The text of every number of a document is read. -/
theorem reads (floats : List Single) : Covers (fun n => ∃ found, n.Reads found) floats :=
  ⟨fun _ hn => ⟨_, reads_natural hn⟩, fun _ _ hx => (reads_widen hx).imp' _ fun _ hy => hy⟩

end Number.Covers

/-! ### What codecs write -/

section

variable {α σ : Type} {kind : Number → Prop} {depth : Nat}

theorem Codec.shaped_array (codec : Codec α) {found : Array α}
    (h : ∀ a ∈ found, Shaped kind depth (codec.document a).toValue) :
    Shaped kind (depth + 1) ((Codec.array codec).document found).toValue := by
  apply Document.shaped_array
  intro entry he
  obtain ⟨a, ha, rfl⟩ := List.mem_map.mp he
  exact h a (Array.mem_toList_iff.mp ha)

theorem Codec.shaped_tuple {wanted : String} {fields : List (RecordField σ)} {initial s : σ}
    (h : ∀ field ∈ fields, Shaped kind depth (field.document s).toValue) :
    Shaped kind (depth + 1) ((Codec.tuple wanted fields initial).document s).toValue := by
  apply Document.shaped_array
  intro entry he
  obtain ⟨field, hf, rfl⟩ := List.mem_map.mp he
  exact h field hf

theorem Record.shaped {record : Record σ} {s : σ}
    (h : ∀ field ∈ record.fields, Shaped kind depth (field.document s).toValue) :
    Shaped kind (depth + 1) (record.codec.document s).toValue := by
  apply Document.shaped_object
  intro member hm
  obtain ⟨field, hf, rfl⟩ := List.mem_map.mp hm
  exact h field hf

end

end RenderMesh.Json
