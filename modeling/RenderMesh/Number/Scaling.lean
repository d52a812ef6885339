import RenderMesh.Number.Rounding

/-!
# Scaling by powers of ten

A natural of 64 bits is scaled by a power of ten in steps that are rounded each: the natural, the
power and their product or quotient. The result is close to the value and not always the nearest
number to it.
-/

namespace RenderMesh

-- Powers of naturals are the core operation, whatever else is in scope.
attribute [local instance (high)] instPowNat

namespace Binary

variable {f : FloatFormat}

/-- The rounded product of finite numbers. -/
def times (x y : Binary f) : Binary f :=
  nearest (x.negative != y.negative) (f.units x.magnitude * f.units y.magnitude)
    (2 ^ f.scale * 2 ^ f.scale)

/-- The rounded quotient of finite numbers, the second not zero. -/
def dividedBy (x y : Binary f) : Binary f :=
  nearest (x.negative != y.negative) (f.units x.magnitude) (f.units y.magnitude)

end Binary

namespace Double

/-- The greatest power of ten that is a finite number. -/
def greatestPower : Nat := 308

def powerOfTen (n : Nat) : Double := .ofInt (10 ^ n)

/-- A number divided by a power of ten, in two steps where one does not reach. What needs a third
is zero. -/
def shrink (x : Double) (places : Nat) : Double :=
  if places ≤ greatestPower then x.dividedBy (powerOfTen places)
  else if places ≤ 2 * greatestPower then
    (x.dividedBy (powerOfTen greatestPower)).dividedBy (powerOfTen (places - greatestPower))
  else .zero

/-- A natural of 64 bits times a power of ten; infinite when it is too great. -/
def scaled (n : Nat) (exponent : Int) : Double :=
  let x : Double := .ofInt n
  if exponent < 0 then x.shrink (-exponent).toNat
  else if n = 0 then .zero
  else if exponent ≤ greatestPower then x.times (powerOfTen exponent.toNat)
  else .infinite false

end Double

end RenderMesh
