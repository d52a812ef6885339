import RenderMesh.Proofs.Compare
import RenderMesh.Proofs.Packed.Json

/-!
# A packed mesh against its own reference

A summary agrees with itself, written and read, when every vertex number does: all else that is
compared comes back as it was, and a vertex number comes back as what its text is read as.
-/

namespace RenderMesh

open Json (Document Number Value)

/-- Whether a number, written for a reference and read from it, is within a tolerance of itself. -/
def Single.Reproduces (tolerance : Double) (x : Single) : Prop :=
  x.isFinite = true ∧ ∃ y, (Number.double x.widen).reread = .ok (.double y) ∧
    tolerance.less (x.widen.distance y) = false

namespace Compare

variable {tolerance : Double}

theorem integer?_natural {n : Nat} (h : (n : Int) ≤ Int64.maxValue.toInt) :
    Value.integer? (.number (.integer n)) = some (n : Int) := by
  have hleast : Int64.minValue.toInt ≤ (n : Int) :=
    Int.le_trans (by decide) (Int.natCast_nonneg n)
  exact if_pos ⟨hleast, h⟩

/-- A natural is read back as it was written. -/
theorem map_readBack_natural {n : Nat} (h : (n : Int) ≤ Int64.maxValue.toInt) :
    (.number (.integer n) : Value).map Number.readBack = .number (.integer n) := by
  have hword : n < UInt64.size := Int.ofNat_lt.mp (Int.lt_of_le_of_lt h (by decide))
  rw [Json.Tree.map, (Number.reads_natural hword).readBack]

theorem isOk_integers_reread {n : Nat} (h : (n : Int) ≤ Int64.maxValue.toInt)
    (missing : Side → Difference) :
    (integers missing (.number (.integer n))
      ((.number (.integer n) : Value).map Number.readBack)).isOk = true := by
  rw [isOk_integers, map_readBack_natural h]
  exact ⟨n, integer?_natural h, integer?_natural h⟩

theorem isOk_numbers_reread (x : Single) :
    (numbers tolerance (Document.ofSingle x).toValue
      ((Document.ofSingle x).toValue.map Number.readBack)).isOk = true ↔
      x.Reproduces tolerance := by
  rw [isOk_numbers, Single.Reproduces]
  cases hx : x.isFinite with
  | false =>
    have hnull : Document.ofSingle x = .null := if_neg (hx ▸ Bool.false_ne_true)
    rw [hnull]
    exact iff_of_false (fun ⟨_, _, h, _⟩ => nomatch h) fun h => Bool.false_ne_true h.1
  | true =>
    obtain ⟨y, reads⟩ := Number.reads_widen hx
    have hnumber : (Document.ofSingle x).toValue = .number (.double x.widen) := by
      rw [Document.ofSingle, if_pos hx]
      rfl
    rw [hnumber, Json.Tree.map, reads.readBack, reads.reread]
    constructor
    · rintro ⟨_, _, ha, he, hnear⟩
      cases ha
      cases he
      exact ⟨rfl, y, rfl, hnear⟩
    · rintro ⟨_, z, hz, hnear⟩
      cases hz
      exact ⟨_, _, rfl, rfl, hnear⟩

/-- Strings are as they were whatever numbers become. -/
theorem texture_map (g : Number → Number) (material : Value) :
    texture (material.map g) = texture material := by
  rw [texture, Json.Tree.get_map, texture]
  cases material.get "texture" <;> rfl

end Compare

namespace PackedMesh

open Compare

variable {packed : PackedMesh} {report : Option PackReport} {tolerance : Double}

theorem isOk_count_reread {which : Count}
    (h : (packed.count which : Int) ≤ Int64.maxValue.toInt) :
    (Compare.count which (packed.summary none)
      ((packed.summary report).map Number.readBack)).isOk = true := by
  rw [isOk_count, Json.Tree.get_map, summary_count, summary_count, map_readBack_natural h]
  exact ⟨_, integer?_natural h, integer?_natural h⟩

theorem isOk_part_reread {which : Part} {entry : Value → Value → Except Difference Unit} :
    (part which entry ((packed.summary none).get "mesh")
      (((packed.summary report).map Number.readBack).get "mesh")).isOk = true ↔
      ∀ value ∈ packed.entries which, (entry value (value.map Number.readBack)).isOk = true := by
  rw [isOk_part, Json.Tree.get_map, summary_mesh, summary_mesh, Json.Tree.get_map, mesh_entries,
    Json.Tree.map, Json.mapEntries_eq]
  constructor
  · rintro ⟨_, _, ha, he, hall⟩
    cases ha
    cases he
    exact List.forall₂_same.mp (List.forall₂_map_right_iff.mp hall)
  · intro hall
    exact ⟨_, _, rfl, rfl, List.forall₂_map_right_iff.mpr (List.forall₂_same.mpr hall)⟩

/-- The summary of a packed mesh agrees with what is read of one that was written, with a report or
without, exactly when every vertex number is within the tolerance of itself. -/
theorem isOk_run_reread (h : ∀ which, (packed.count which : Int) ≤ Int64.maxValue.toInt) :
    (run (packed.summary none) ((packed.summary report).map Number.readBack) tolerance).isOk =
      true ↔ ∀ x ∈ packed.vertices, x.Reproduces tolerance := by
  have hword : ∀ words : Array UInt32,
      ∀ value ∈ words.toList.map fun w => (.number (.integer w.toNat) : Value),
        ((integers .invalid value (value.map Number.readBack)).map fun _ => ()).isOk = true := by
    intro words value hv
    obtain ⟨word, _, rfl⟩ := List.mem_map.mp hv
    rw [isOk_map]
    have hlt : (word.toNat : Int) < UInt32.size := Int.ofNat_lt.mpr word.toNat_lt
    exact isOk_integers_reread (Int.le_trans (Int.le_of_lt hlt) (by decide)) _
  have hindices : ∀ which ∈ [Part.indices, .materialIds],
      (part which (fun a e => (integers .invalid a e).map fun _ => ())
        ((packed.summary none).get "mesh")
        (((packed.summary report).map Number.readBack).get "mesh")).isOk = true := by
    simp only [List.forall_mem_cons, isOk_part_reread]
    exact ⟨hword _, hword _, fun _ h => nomatch h⟩
  have htextures : (part .materials textures ((packed.summary none).get "mesh")
      (((packed.summary report).map Number.readBack).get "mesh")).isOk = true := by
    rw [isOk_part_reread]
    exact fun value _ => isOk_textures.mpr (texture_map _ value).symm
  rw [isOk_run, isOk_part_reread]
  constructor
  · rintro ⟨_, hvertices, _⟩ x hx
    exact (isOk_numbers_reread x).mp
      (hvertices _ (List.mem_map.mpr ⟨x, Array.mem_toList_iff.mpr hx, rfl⟩))
  · intro hvertices
    refine ⟨fun which => isOk_count_reread (h which), fun value hv => ?_, hindices, htextures⟩
    obtain ⟨x, hx, rfl⟩ := List.mem_map.mp hv
    exact (isOk_numbers_reread x).mpr (hvertices x (Array.mem_toList_iff.mp hx))

end PackedMesh

end RenderMesh
