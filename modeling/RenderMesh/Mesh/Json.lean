import RenderMesh.Json.Codec
import RenderMesh.Mesh

/-!
# Meshes in JSON

How the parts of a mesh stand in JSON. Fields that are left out of a material or an attribute keep
their defaults; a color needs all of its channels.
-/

namespace RenderMesh

open Json (Codec Record)

/-! ### Vectors -/

/-- A list of two numbers. -/
def Vec2.codec : Codec Vec2 :=
  .tuple "a sequence of 2 f32 values"
    [.of "x" .single Vec2.x fun v a => { v with x := a },
     .of "y" .single Vec2.y fun v a => { v with y := a }]
    default

/-- A list of three numbers. -/
def Vec3.codec : Codec Vec3 :=
  .tuple "a sequence of 3 f32 values"
    [.of "x" .single Vec3.x fun v a => { v with x := a },
     .of "y" .single Vec3.y fun v a => { v with y := a },
     .of "z" .single Vec3.z fun v a => { v with z := a }]
    default

/-! ### Materials -/

namespace Color

def record : Record Color where
  name := "Color"
  fields :=
    [.of "r" .byte r fun c a => { c with r := a },
     .of "g" .byte g fun c a => { c with g := a },
     .of "b" .byte b fun c a => { c with b := a },
     .of "a" .byte a fun c a => { c with a := a }]
  initial := white
  complete := true

def codec : Codec Color := record.codec

end Color

namespace Material

def record : Record Material where
  name := "Material"
  fields :=
    [.of "name" .string name fun m a => { m with name := a },
     .of "group" .named group fun m a => { m with group := a },
     .of "color" Color.codec color fun m a => { m with color := a },
     .of "smooth_angle" .single smoothAngle fun m a => { m with smoothAngle := a },
     .of "texture" .string texture fun m a => { m with texture := a },
     .of "texture_scale" Vec2.codec textureScale fun m a => { m with textureScale := a },
     .of "texture_anim_fps" .single textureAnimFps fun m a => { m with textureAnimFps := a },
     .of "texture_anim_map_mode" .named textureAnimMapMode fun m a =>
       { m with textureAnimMapMode := a },
     .of "texture_anim_map_dir" Vec2.codec textureAnimMapDir fun m a =>
       { m with textureAnimMapDir := a },
     .of "detail_object" .string detailObject fun m a => { m with detailObject := a },
     .of "detail_object_scale" .single detailObjectScale fun m a =>
       { m with detailObjectScale := a },
     .of "occluder" .bool occluder fun m a => { m with occluder := a },
     .of "environment_mapping" .bool environmentMapping fun m a =>
       { m with environmentMapping := a },
     .of "environment_mapping_strength" .single environmentMappingStrength fun m a =>
       { m with environmentMappingStrength := a },
     .of "wave_mode" .named waveMode fun m a => { m with waveMode := a },
     .of "wave_speed" .named waveSpeed fun m a => { m with waveSpeed := a },
     .of "wave_max_amplitude" .single waveMaxAmplitude fun m a =>
       { m with waveMaxAmplitude := a },
     .of "wave_grid_size" .single waveGridSize fun m a => { m with waveGridSize := a },
     .of "ignore_sun" .bool ignoreSun fun m a => { m with ignoreSun := a },
     .of "default_mapping" Vec2.codec defaultMapping fun m a => { m with defaultMapping := a }]
  initial := {}

def codec : Codec Material := record.codec

end Material

/-! ### Attributes -/

namespace VertexAttribute

def record : Record VertexAttribute where
  name := "VertexAttribute"
  fields :=
    [.of "normal" Vec3.codec normal fun s a => { s with normal := a },
     .of "uv" Vec2.codec uv fun s a => { s with uv := a },
     .of "light" .word light fun s a => { s with light := a }]
  initial := {}

def codec : Codec VertexAttribute := record.codec

end VertexAttribute

end RenderMesh
