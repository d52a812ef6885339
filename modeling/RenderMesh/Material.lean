import RenderMesh.Named
import RenderMesh.Vector

/-!
# Materials

A material is how a triangle's surface looks and moves. Its name says where it comes from and has
no part in how it renders: similar materials differ in nothing else.
-/

namespace RenderMesh

/-- What a surface is made of. -/
inductive MaterialGroup where
  | undefined
  | metal
  | stone
  | wood
  | earth
  | water
  | snow
  | none
deriving DecidableEq, Repr

instance : Named MaterialGroup where
  all := [.undefined, .metal, .stone, .wood, .earth, .water, .snow, .none]
  name
    | .undefined => "undefined"
    | .metal => "metal"
    | .stone => "stone"
    | .wood => "wood"
    | .earth => "earth"
    | .water => "water"
    | .snow => "snow"
    | .none => "none"

/-- How the mapping of an animated texture advances. -/
inductive AnimationMapping where
  | none
  | linear
deriving DecidableEq, Repr

instance : Named AnimationMapping where
  all := [.none, .linear]
  name
    | .none => "none"
    | .linear => "linear"

/-- How vertices sway. -/
inductive WaveMode where
  | none
  | groundAmbient
  | ground
  | wallAmbient
  | wall
  | environment
  | windAmbient
  | wind
deriving DecidableEq, Repr

instance : Named WaveMode where
  all := [.none, .groundAmbient, .ground, .wallAmbient, .wall, .environment, .windAmbient, .wind]
  name
    | .none => "none"
    | .groundAmbient => "ground_ambient"
    | .ground => "ground"
    | .wallAmbient => "wall_ambient"
    | .wall => "wall"
    | .environment => "environment"
    | .windAmbient => "wind_ambient"
    | .wind => "wind"

/-- How fast vertices sway. -/
inductive WaveSpeed where
  | none
  | slow
  | normal
  | fast
deriving DecidableEq, Repr

instance : Named WaveSpeed where
  all := [.none, .slow, .normal, .fast]
  name
    | .none => "none"
    | .slow => "slow"
    | .normal => "normal"
    | .fast => "fast"

/-- Red, green, blue and opacity. -/
structure Color where
  r : UInt8
  g : UInt8
  b : UInt8
  a : UInt8
deriving DecidableEq

def Color.white : Color := ⟨255, 255, 255, 255⟩

/-- A material of a mesh. What is left out takes the value given here. -/
structure Material where
  name : String := ""
  group : MaterialGroup := .undefined
  color : Color := .white
  /-- In degrees. -/
  smoothAngle : Single := .ofInt 60
  texture : String := ""
  textureScale : Vec2 := ⟨.ofInt 1, .ofInt 1⟩
  textureAnimFps : Single := .zero
  textureAnimMapMode : AnimationMapping := .none
  textureAnimMapDir : Vec2 := ⟨.zero, .zero⟩
  /-- Empty when there is no detail texture. -/
  detailObject : String := ""
  detailObjectScale : Single := .ofInt 1
  occluder : Bool := false
  environmentMapping : Bool := false
  environmentMappingStrength : Single := .ofInt 1
  waveMode : WaveMode := .none
  waveSpeed : WaveSpeed := .none
  waveMaxAmplitude : Single := .ofInt 30
  waveGridSize : Single := .ofInt 100
  ignoreSun : Bool := false
  defaultMapping : Vec2 := ⟨.zero, .zero⟩
deriving DecidableEq

namespace Material

instance : Inhabited Material := ⟨{}⟩

/-- Whether two materials render alike (`is_similar`). Numbers are compared exactly, so a material
with a NaN is not even similar to itself. -/
def similar (a b : Material) : Bool :=
  a.group == b.group
    && a.color == b.color
    && a.smoothAngle.equal b.smoothAngle
    && a.texture == b.texture
    && a.textureScale.equal b.textureScale
    && a.textureAnimFps.equal b.textureAnimFps
    && a.textureAnimMapMode == b.textureAnimMapMode
    && a.textureAnimMapDir.equal b.textureAnimMapDir
    && a.detailObject == b.detailObject
    && a.detailObjectScale.equal b.detailObjectScale
    && a.occluder == b.occluder
    && a.environmentMapping == b.environmentMapping
    && a.environmentMappingStrength.equal b.environmentMappingStrength
    && a.waveMode == b.waveMode
    && a.waveSpeed == b.waveSpeed
    && a.waveMaxAmplitude.equal b.waveMaxAmplitude
    && a.waveGridSize.equal b.waveGridSize
    && a.ignoreSun == b.ignoreSun
    && a.defaultMapping.equal b.defaultMapping

/-- Numerical equality of every field, the name included. -/
def equal (a b : Material) : Bool :=
  a.name == b.name
    && a.group == b.group
    && a.color == b.color
    && a.smoothAngle.equal b.smoothAngle
    && a.texture == b.texture
    && a.textureScale.equal b.textureScale
    && a.textureAnimFps.equal b.textureAnimFps
    && a.textureAnimMapMode == b.textureAnimMapMode
    && a.textureAnimMapDir.equal b.textureAnimMapDir
    && a.detailObject == b.detailObject
    && a.detailObjectScale.equal b.detailObjectScale
    && a.occluder == b.occluder
    && a.environmentMapping == b.environmentMapping
    && a.environmentMappingStrength.equal b.environmentMappingStrength
    && a.waveMode == b.waveMode
    && a.waveSpeed == b.waveSpeed
    && a.waveMaxAmplitude.equal b.waveMaxAmplitude
    && a.waveGridSize.equal b.waveGridSize
    && a.ignoreSun == b.ignoreSun
    && a.defaultMapping.equal b.defaultMapping

end Material

end RenderMesh
