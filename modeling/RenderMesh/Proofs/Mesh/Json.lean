import RenderMesh.Mesh.Json
import RenderMesh.Proofs.Json.Record

/-!
# Parts of a mesh that are read back

Vectors, colors, materials and attributes come back from their text in every field, if their numbers
are finite. As values they are nested at most two deep.
-/

namespace RenderMesh

open Json.Codec (restores_tuple restores_single restores_string restores_bool restores_byte
  restores_word restores_named)
open Json (Document Number)
open Json.RecordField (restores_of commutes_of)
open Json.Value (Shaped)

variable {kind : Number → Prop}

/-! ### Vectors -/

theorem Vec2.restores (v : Vec2) : codec.Restores v (v.floats.all Binary.isFinite) :=
  restores_tuple
    (.cons (restores_of (restores_single v.x))
      (.cons (restores_of (restores_single v.y)) .nil)) rfl

theorem Vec2.shaped {v : Vec2} (h : Number.Covers kind v.floats) :
    Shaped kind 1 (codec.document v).toValue := by
  apply Json.Codec.shaped_tuple
  simp only [List.forall_mem_cons]
  exact ⟨Document.shaped_ofSingle (h.single v.x (by simp [floats])),
    Document.shaped_ofSingle (h.single v.y (by simp [floats])), fun _ h => nomatch h⟩

theorem Vec3.restores (v : Vec3) : codec.Restores v (v.floats.all Binary.isFinite) :=
  restores_tuple
    (.cons (restores_of (restores_single v.x))
      (.cons (restores_of (restores_single v.y))
        (.cons (restores_of (restores_single v.z)) .nil))) rfl

/-! ### Materials -/

theorem Color.independent : record.Independent :=
  ⟨by decide, by simp [record, commutes_of]⟩

theorem Color.restores (c : Color) : codec.Restores c true :=
  Json.Record.restores independent
    (.cons (restores_of (restores_byte c.r))
      (.cons (restores_of (restores_byte c.g))
        (.cons (restores_of (restores_byte c.b))
          (.cons (restores_of (restores_byte c.a)) .nil)))) rfl

theorem Color.shaped (hnatural : ∀ n : Nat, n < UInt64.size → kind (.integer n)) (c : Color) :
    Shaped kind 1 (codec.document c).toValue := by
  apply Json.Record.shaped
  have hchannel : ∀ channel : UInt8, Shaped kind 0 (Json.Codec.byte.document channel).toValue := by
    intro channel
    exact Document.shaped_ofNat (hnatural _ (Nat.lt_trans channel.toNat_lt (by decide)))
  simp only [record, List.forall_mem_cons]
  exact ⟨hchannel _, hchannel _, hchannel _, hchannel _, fun _ h => nomatch h⟩

theorem MaterialGroup.ofName?_name (group : MaterialGroup) :
    Named.ofName? (Named.name group) = some group := by
  cases group <;> decide

theorem AnimationMapping.ofName?_name (mapping : AnimationMapping) :
    Named.ofName? (Named.name mapping) = some mapping := by
  cases mapping <;> decide

theorem WaveMode.ofName?_name (mode : WaveMode) :
    Named.ofName? (Named.name mode) = some mode := by
  cases mode <;> decide

theorem WaveSpeed.ofName?_name (speed : WaveSpeed) :
    Named.ofName? (Named.name speed) = some speed := by
  cases speed <;> decide

namespace Material

/-- All numbers of a material. -/
def floats (m : Material) : List Single :=
  m.smoothAngle :: m.textureScale.floats ++ m.textureAnimFps :: m.textureAnimMapDir.floats ++
    m.detailObjectScale :: m.environmentMappingStrength :: m.waveMaxAmplitude :: m.waveGridSize ::
    m.defaultMapping.floats

theorem independent : record.Independent :=
  ⟨by decide, by simp [record, commutes_of]⟩

theorem restores (m : Material) : codec.Restores m (m.floats.all Binary.isFinite) := by
  refine (Json.Record.restores independent
    (.cons (restores_of (restores_string m.name))
    (.cons (restores_of (restores_named m.group.ofName?_name))
    (.cons (restores_of m.color.restores)
    (.cons (restores_of (restores_single m.smoothAngle))
    (.cons (restores_of (restores_string m.texture))
    (.cons (restores_of m.textureScale.restores)
    (.cons (restores_of (restores_single m.textureAnimFps))
    (.cons (restores_of (restores_named m.textureAnimMapMode.ofName?_name))
    (.cons (restores_of m.textureAnimMapDir.restores)
    (.cons (restores_of (restores_string m.detailObject))
    (.cons (restores_of (restores_single m.detailObjectScale))
    (.cons (restores_of (restores_bool m.occluder))
    (.cons (restores_of (restores_bool m.environmentMapping))
    (.cons (restores_of (restores_single m.environmentMappingStrength))
    (.cons (restores_of (restores_named m.waveMode.ofName?_name))
    (.cons (restores_of (restores_named m.waveSpeed.ofName?_name))
    (.cons (restores_of (restores_single m.waveMaxAmplitude))
    (.cons (restores_of (restores_single m.waveGridSize))
    (.cons (restores_of (restores_bool m.ignoreSun))
    (.cons (restores_of m.defaultMapping.restores) .nil)))))))))))))))))))) rfl).congr ?_
  simp [floats, Vec2.floats, Bool.and_assoc]

theorem shaped {m : Material} (h : Number.Covers kind m.floats) :
    Shaped kind 2 (codec.document m).toValue := by
  apply Json.Record.shaped
  have hsingle : ∀ x ∈ m.floats, Shaped kind 1 (Json.Codec.single.document x).toValue :=
    fun x hx => Document.shaped_ofSingle (h.single x hx)
  have hnamed : ∀ {α : Type} [Named α] (a : α),
      Shaped kind 1 (Json.Codec.named.document a).toValue := fun _ => .string _
  have hvector : ∀ v : Vec2, v.floats ⊆ m.floats → Shaped kind 1 (Vec2.codec.document v).toValue :=
    fun v hv => Vec2.shaped (h.mono hv)
  simp only [record, List.forall_mem_cons]
  refine ⟨.string _, hnamed _, Color.shaped h.natural _, hsingle _ ?_, .string _, hvector _ ?_,
    hsingle _ ?_, hnamed _, hvector _ ?_, .string _, hsingle _ ?_, .bool _, .bool _, hsingle _ ?_,
    hnamed _, hnamed _, hsingle _ ?_, hsingle _ ?_, .bool _, hvector _ ?_, fun _ h => nomatch h⟩
  all_goals simp [floats, Vec2.floats]

end Material

/-! ### Attributes -/

namespace VertexAttribute

/-- All numbers of an attribute. -/
def floats (s : VertexAttribute) : List Single := s.normal.floats ++ s.uv.floats

theorem independent : record.Independent :=
  ⟨by decide, by simp [record, commutes_of]⟩

theorem restores (s : VertexAttribute) : codec.Restores s (s.floats.all Binary.isFinite) := by
  refine (Json.Record.restores independent
    (.cons (restores_of s.normal.restores)
      (.cons (restores_of s.uv.restores)
        (.cons (restores_of (restores_word s.light)) .nil))) rfl).congr ?_
  simp [floats]

end VertexAttribute

end RenderMesh
