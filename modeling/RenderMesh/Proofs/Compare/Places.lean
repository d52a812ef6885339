import Mathlib.Data.Prod.Lex
import RenderMesh.Compare

/-!
# Places in order

Places are compared in a fixed order: the counts, then each part of the meshes, first as a list and
then by its entries. The rank of a place says where it stands in this order. A mismatch shows its
place as a field, which belongs to no other place.
-/

namespace RenderMesh

def Count.number : Count → Nat
  | .vertices => 0
  | .indices => 1
  | .triangles => 2
  | .materials => 3

theorem Count.number_lt (which : Count) : which.number < 4 := by
  cases which <;> decide

theorem Count.number_injective : Function.Injective number := by
  intro a b h
  cases a <;> cases b <;> simp_all [number]

def Part.number : Part → Nat
  | .vertices => 0
  | .indices => 1
  | .materialIds => 2
  | .materials => 3

theorem Part.number_lt (which : Part) : which.number < 4 := by
  cases which <;> decide

theorem Part.number_injective : Function.Injective number := by
  intro a b h
  cases a <;> cases b <;> simp_all [number]

/-- The stage of a part's lists; its entries have the next one. -/
def Part.stage (which : Part) : Nat := 4 + 2 * which.number

namespace Place

/-- Counts stand first, then the lists of each part, followed by its entries. -/
def stage : Place → Nat
  | .count which => which.number
  | .part which => which.stage
  | .entry which _ => which.stage + 1

/-- The number of an entry among those of its part. -/
def step : Place → Nat
  | .entry _ number => number
  | _ => 0

/-- Where a place stands in the order of comparing. -/
def rank (place : Place) : ℕ ×ₗ ℕ := toLex (place.stage, place.step)

/-- The rank after all places. -/
def rankEnd : ℕ ×ₗ ℕ := toLex (12, 0)

variable {place : Place}

theorem zero_le_rank (place : Place) : toLex (0, 0) ≤ place.rank := by
  refine Prod.Lex.toLex_le_toLex.mpr ?_
  dsimp only
  omega

theorem eq_count_of_stage {which : Count} (h : place.stage = which.number) :
    place = .count which := by
  have hlt := which.number_lt
  cases place with
  | count other => rw [Count.number_injective h]
  | part other | entry other number =>
    simp only [stage, Part.stage] at h
    omega

theorem eq_part_of_stage {which : Part} (h : place.stage = which.stage) : place = .part which := by
  cases place with
  | count other =>
    have hlt := other.number_lt
    simp only [stage, Part.stage] at h
    omega
  | part other =>
    simp only [stage, Part.stage] at h
    rw [Part.number_injective (by omega : other.number = which.number)]
  | entry other number =>
    simp only [stage, Part.stage] at h
    omega

theorem eq_entry_of_stage {which : Part} (h : place.stage = which.stage + 1) :
    place = .entry which place.step := by
  cases place with
  | count other =>
    have hlt := other.number_lt
    simp only [stage, Part.stage] at h
    omega
  | part other =>
    simp only [stage, Part.stage] at h
    omega
  | entry other number =>
    simp only [stage, Part.stage] at h
    rw [Part.number_injective (by omega : other.number = which.number), step]

theorem rank_injective : Function.Injective rank := by
  intro p q h
  obtain ⟨hstage, hstep⟩ := Prod.mk.inj (toLex.injective h)
  cases q with
  | count which => exact eq_count_of_stage hstage
  | part which => exact eq_part_of_stage hstage
  | entry which number =>
    rw [eq_entry_of_stage hstage, hstep]
    rfl

theorem rank_lt_rankEnd (place : Place) : place.rank < rankEnd := by
  refine Prod.Lex.toLex_lt_toLex.mpr (Or.inl ?_)
  cases place with
  | count which =>
    have hlt := which.number_lt
    simp only [stage]
    omega
  | part which | entry which number =>
    have hlt := which.number_lt
    simp only [stage, Part.stage]
    omega

/-- From a step of a stage to the next stage there are the later steps of that stage. -/
theorem of_rank_between {stage step : Nat} (hfirst : toLex (stage, step) ≤ place.rank)
    (hstop : place.rank < toLex (stage + 1, 0)) : place.stage = stage ∧ step ≤ place.step := by
  have hfrom := Prod.Lex.toLex_le_toLex.mp hfirst
  have hto := Prod.Lex.toLex_lt_toLex.mp hstop
  dsimp only at hfrom hto
  omega

/-- From a place to the next step of its stage there is no other place. -/
theorem eq_of_rank_between {other : Place} (hfirst : place.rank ≤ other.rank)
    (hstop : other.rank < toLex (place.stage, place.step + 1)) : other = place := by
  have hfrom := Prod.Lex.toLex_le_toLex.mp hfirst
  have hto := Prod.Lex.toLex_lt_toLex.mp hstop
  dsimp only at hfrom hto
  have hstage : other.stage = place.stage := by omega
  have hstep : other.step = place.step := by omega
  exact rank_injective (congrArg toLex (Prod.ext hstage hstep))

theorem toDigits_ten_injective : Function.Injective (Nat.toDigits 10) := by
  have hread : Function.LeftInverse (fun digits => Nat.ofDigitChars 10 digits 0)
      (Nat.toDigits 10) := fun _ => Nat.ofDigitChars_ten_toDigits
  exact hread.injective

/-- A field belongs to one place. -/
theorem name_injective : Function.Injective name := by
  intro p q h
  -- Fields differ before the first bracket, or in the number after it.
  rw [← String.toList_inj] at h
  rcases p with ⟨⟨⟩⟩ | ⟨⟨⟩⟩ | ⟨⟨⟩, m⟩ <;> rcases q with ⟨⟨⟩⟩ | ⟨⟨⟩⟩ | ⟨⟨⟩, n⟩ <;>
    simp_all [name, Count.name, Part.path, Part.name, toString] <;> exact toDigits_ten_injective h

/-- All fields in order, those of two entries in each part. -/
example :
    let places := [count .vertices, count .indices, count .triangles, count .materials,
      part .vertices, entry .vertices 9, entry .vertices 10, part .indices, entry .indices 9,
      entry .indices 10, part .materialIds, entry .materialIds 9, entry .materialIds 10,
      part .materials, entry .materials 9, entry .materials 10]
    places.Pairwise (fun p q => p.rank < q.rank) ∧ places.map name =
      ["vertex_count", "index_count", "triangle_count", "material_count", "mesh.vertices",
        "mesh.vertices[9]", "mesh.vertices[10]", "mesh.indices", "mesh.indices[9]",
        "mesh.indices[10]", "mesh.material_ids", "mesh.material_ids[9]", "mesh.material_ids[10]",
        "mesh.materials", "mesh.materials[9].texture", "mesh.materials[10].texture"] := by
  decide

end Place

end RenderMesh
