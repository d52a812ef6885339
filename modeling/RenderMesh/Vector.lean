import RenderMesh.Number.Rounding

/-!
# Vectors

Points and texture coordinates in numbers of four bytes.
-/

namespace RenderMesh

structure Vec2 where
  x : Single
  y : Single
deriving DecidableEq, Inhabited

structure Vec3 where
  x : Single
  y : Single
  z : Single
deriving DecidableEq, Inhabited

/-- Numerical equality of both coordinates. -/
def Vec2.equal (a b : Vec2) : Bool := a.x.equal b.x && a.y.equal b.y

def Vec2.floats (v : Vec2) : List Single := [v.x, v.y]

namespace Vec3

/-- Numerical equality of all coordinates. -/
def equal (a b : Vec3) : Bool := a.x.equal b.x && a.y.equal b.y && a.z.equal b.z

def floats (v : Vec3) : List Single := [v.x, v.y, v.z]

/-- The smaller of two numbers; the second when neither is smaller. -/
def least (a b : Single) : Single := if a.less b then a else b

/-- The greater of two numbers; the second when neither is greater. -/
def greatest (a b : Single) : Single := if b.less a then a else b

/-- The lower corner of the box around two points. -/
def lower (a b : Vec3) : Vec3 := ⟨least a.x b.x, least a.y b.y, least a.z b.z⟩

/-- The upper corner of the box around two points. -/
def upper (a b : Vec3) : Vec3 := ⟨greatest a.x b.x, greatest a.y b.y, greatest a.z b.z⟩

end Vec3

end RenderMesh
