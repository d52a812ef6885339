import RenderMesh.Proofs.Json.Document
import RenderMesh.Proofs.Json.Narrowed

/-!
# Ways to show a document

A document stands in a text as it is, or as a value whose members are sorted and whose numbers are
of eight bytes. Both show it as a tree of the same shape, with members in one order or another and
numbers that are read as those of the document.
-/

namespace RenderMesh.Json

/-- A way to show documents as trees: every part as what its own parts are shown as. -/
structure Rendering (ν : Type) where
  number : ν → List Char
  tree : Document → Tree ν
  null : tree .null = .null
  bool (value : Bool) : tree (.bool value) = .bool value
  string (value : String) : tree (.string value) = .string value
  natural (n : Nat) : n < UInt64.size →
    ∃ v, tree (.number (.natural n)) = .number v ∧ Spells (number v) (.integer n)
  single (x : Single) : x.isFinite = true →
    ∃ v, tree (.number (.single x)) = .number v ∧ SpellsSingle (number v) x
  array (entries : List Document) : tree (.array entries) = .array (entries.map tree)
  object (members : List (String × Document)) : (members.map Prod.fst).Nodup →
    ∃ shown, tree (.object members) = .object shown ∧
      shown.Perm (members.map fun member => (member.1, tree member.2))

namespace Rendering

/-- The text of a document at a level of a layout. -/
def text {ν : Type} (r : Rendering ν) (layout : Layout) (level : Nat) (document : Document) :
    List Char := (r.tree document).text r.number layout level

section

variable {ν : Type} (r : Rendering ν) (layout : Layout) (level : Nat)

theorem text_null : r.text layout level .null = ['n', 'u', 'l', 'l'] := by
  rw [text, r.null]
  rfl

theorem text_bool (value : Bool) :
    r.text layout level (.bool value) = if value then ['t', 'r', 'u', 'e'] else
      ['f', 'a', 'l', 's', 'e'] := by
  rw [text, r.bool]
  cases value <;> rfl

theorem text_string (value : String) : r.text layout level (.string value) = stringText value := by
  rw [text, r.string]
  rfl

theorem spells_natural {n : Nat} (h : n < UInt64.size) :
    Spells (r.text layout level (.ofNat n)) (.integer n) := by
  obtain ⟨v, hv, hspells⟩ := r.natural n h
  rw [text, Document.ofNat, hv]
  exact hspells

theorem spells_single {x : Single} (hx : x.isFinite = true) :
    SpellsSingle (r.text layout level (.number (.single x))) x := by
  obtain ⟨v, hv, hspells⟩ := r.single x hx
  rw [text, hv]
  exact hspells

theorem text_array (entries : List Document) :
    r.text layout level (.array entries) =
      '[' :: entriesText r.number layout level true (entries.map r.tree) := by
  rw [text, r.array, Json.text_array]

theorem text_object {members : List (String × Document)} (h : (members.map Prod.fst).Nodup) :
    ∃ shown, r.text layout level (.object members) =
        '{' :: membersText r.number layout level true shown ∧
      shown.Perm (members.map fun member => (member.1, r.tree member.2)) := by
  obtain ⟨shown, hshown, hperm⟩ := r.object members h
  exact ⟨shown, by rw [text, hshown, Json.text_object], hperm⟩

end

/-- A document as it is. -/
def plain : Rendering Scalar where
  number := Scalar.text
  tree := id
  null := rfl
  bool _ := rfl
  string _ := rfl
  natural n h := ⟨_, rfl, Number.reads_natural h⟩
  single x hx := ⟨_, rfl, x.spells hx⟩
  array entries := by rw [List.map_id]; rfl
  object members _ := ⟨members, rfl, by simp⟩

/-- A document as a value whose numbers have become others, as long as these are read as the ones of
the document. -/
def value (g : Number → Number)
    (natural : ∀ n < UInt64.size, Spells (g (.integer (n : Nat))).text (.integer n))
    (single : ∀ x : Single, x.isFinite = true → SpellsSingle (g (.double x.widen)).text x) :
    Rendering Number where
  number := Number.text
  tree document := document.toValue.map g
  null := rfl
  bool _ := rfl
  string _ := rfl
  natural n h := ⟨_, rfl, natural n h⟩
  single x hx := ⟨_, rfl, single x hx⟩
  array entries := by
    rw [Document.toValue, Tree.map, mapEntries_eq, Document.entryValues_eq, List.map_map]
    rfl
  object members hnames := by
    rw [Document.toValue, Tree.map, mapMembers_eq, Document.memberValues_eq]
    refine ⟨_, rfl, ?_⟩
    have hsame : (members.map fun member => (member.1, member.2.toValue)).map Prod.fst =
        members.map Prod.fst := by
      rw [List.map_map]
      rfl
    refine ((sortedMembers_perm (hsame ▸ hnames)).map _).trans (.of_eq ?_)
    rw [List.map_map]
    rfl

end Rendering

end RenderMesh.Json
