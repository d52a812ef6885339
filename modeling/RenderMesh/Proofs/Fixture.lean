import RenderMesh.Fixture
import RenderMesh.Proofs.Mesh.Json

/-!
# Fixtures and their text

A fixture is read back from its own text in every field, bit for bit, when all of its numbers are
finite.
-/

namespace RenderMesh

open Json.Codec (restores_array restores_string restores_word)
open Json.RecordField (restores_of commutes_of)

/-- All numbers of a mesh. -/
def Mesh.floats (mesh : Mesh) : List Single :=
  mesh.positions.toList.flatMap Vec3.floats ++
    mesh.attributes.toList.flatMap VertexAttribute.floats ++
    mesh.materials.toList.flatMap Material.floats

namespace Fixture

theorem independent : record.Independent :=
  ⟨by decide, by simp [record, meshField, commutes_of]⟩

theorem restores (fixture : Fixture) :
    codec.Restores fixture (fixture.mesh.floats.all Binary.isFinite) := by
  have hwords : ∀ words : Array UInt32, (Json.Codec.array .word).Restores words true := fun words =>
    (restores_array fun n _ => restores_word n).congr (by simp)
  refine (Json.Record.restores independent
    (.cons (restores_of (restores_string fixture.name))
    (.cons (restores_of (restores_array fun position _ => position.restores))
    (.cons (restores_of (restores_array fun shading _ => shading.restores))
    (.cons (restores_of (hwords fixture.mesh.cornerPositions))
    (.cons (restores_of (hwords fixture.mesh.cornerAttributes))
    (.cons (restores_of (hwords fixture.mesh.triangleMaterials))
    (.cons (restores_of (restores_array fun material _ => material.restores)) .nil)))))))
    rfl).congr ?_
  simp [Mesh.floats]

/-- A fixture of finite numbers is read back from its own text. -/
theorem parse_write (fixture : Fixture)
    (finite : ∀ x ∈ fixture.mesh.floats, x.isFinite = true) :
    parse fixture.write = .ok fixture :=
  (fixture.restores.parse_iff .plain Json.Layout.blank_compact 0 fixture).mpr
    ⟨List.all_eq_true.mpr finite, rfl⟩

/-- A fixture with a number next to a half-way point, a zero with a sign and names that need
escapes. -/
def gnarled : Fixture where
  name := "a \"wall\"\n"
  mesh :=
    { positions := #[⟨.ofBits 0x15ae43fd, .ofBits 0x80000000, .ofBits 0x7f7fffff⟩]
      attributes := #[{ light := 4294967295 }]
      cornerPositions := #[0, 1]
      materials := #[{ name := "\\", group := .stone, waveMode := .wallAmbient }] }

theorem parse_write_gnarled :
    (∀ x ∈ gnarled.mesh.floats, x.isFinite = true) ∧ parse gnarled.write = .ok gnarled := by
  have finite : ∀ x ∈ gnarled.mesh.floats, x.isFinite = true := by decide +kernel
  exact ⟨finite, parse_write gnarled finite⟩

end Fixture

end RenderMesh
