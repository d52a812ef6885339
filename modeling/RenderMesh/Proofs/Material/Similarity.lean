import RenderMesh.Proofs.Material.Classes
import RenderMesh.Proofs.Mesh.Json

/-!
# Similarity of materials

Similarity is equality that does not look at names. It goes both ways and passes on, zeros of both
signs among it, so there are no chains of materials with ends that are not similar. Only a NaN sets
a material apart: from every other one, and from itself.
-/

namespace RenderMesh

theorem Binary.equal_self {f : FloatFormat} (x : Binary f) : x.equal x = !x.isNaN := by
  simp [Binary.equal]

theorem Vec2.equal_self (v : Vec2) : v.equal v = v.floats.all fun x => !x.isNaN := by
  simp [Vec2.equal, Vec2.floats, Binary.equal_self]

namespace Material

theorem equal_eq (a b : Material) : a.equal b = (a.name == b.name && a.similar b) := by
  simp only [equal, similar, Bool.and_assoc]

/-- To rename both materials alike leaves what similarity looks at. -/
theorem equal_renamed (a b : Material) (name : String) :
    ({ a with name := name } : Material).equal { b with name := name } = a.similar b := by
  rw [equal_eq, beq_self_eq_true, Bool.true_and]
  rfl

theorem similar_self (a : Material) : a.similar a = a.floats.all fun x => !x.isNaN := by
  simp [similar, floats, Binary.equal_self, Vec2.equal_self, Bool.and_assoc]

/-- Similarity is a partial equivalence, and what it leaves out are the materials with a NaN. Two
materials are similar exactly where they are equal under one name. -/
theorem similar_partial_equivalence :
    (∀ a b : Material, a.similar b = true ↔ b.similar a = true) ∧
    (∀ a b c : Material, a.similar b = true → b.similar c = true → a.similar c = true) ∧
    (∀ a : Material, a.similar a = true ↔ ∀ x ∈ a.floats, x.isNaN = false) ∧
    ∀ (a b : Material) (name : String), a.similar b = true ↔
      ({ a with name := name } : Material).equal { b with name := name } = true := by
  refine ⟨fun a b => ?_, fun _ _ _ => similar_trans, fun a => ?_, fun a b name => ?_⟩
  · rw [a.similar_comm b]
  · rw [similar_self, List.all_eq_true]
    simp only [Bool.not_eq_true']
  · rw [equal_renamed]

/-- Water of a name, with waves of a height. -/
def water (name : String) (height : Single) : Material :=
  { name := name, group := .water, waveMaxAmplitude := height }

/-- Heights of zero are one height whatever their signs, and no height is none. -/
theorem similar_partial_equivalence_waters :
    ((water "STILL" .zero).similar (water "TURNED" (.ofBits 0x80000000)) = true ∧
      (water "TURNED" (.ofBits 0x80000000)).similar (water "FAR" .zero) = true) ∧
    (water "STILL" .zero).similar (water "FAR" .zero) = true ∧
    (water "LOST" .nan).similar (water "LOST" .nan) = false := by
  obtain ⟨_, htrans, hself, _⟩ := similar_partial_equivalence
  have hturned : (water "STILL" .zero).similar (water "TURNED" (.ofBits 0x80000000)) = true := by
    decide +kernel
  have hfar : (water "TURNED" (.ofBits 0x80000000)).similar (water "FAR" .zero) = true := by
    decide +kernel
  refine ⟨⟨hturned, hfar⟩, htrans _ _ _ hturned hfar, ?_⟩
  rw [← Bool.not_eq_true, hself]
  exact fun hall => absurd (hall .nan (by decide +kernel)) (by decide)

end Material

end RenderMesh
