import RenderMesh.Number.Binary

/-!
# Rounding to a binary format

Every finite number of a format is a whole multiple of its least positive number, so a ratio is
rounded once, in exact arithmetic of naturals: to the nearest multiple that the format holds, a
half to the even code. Conversions and the distance of two numbers are instances of it.
-/

namespace RenderMesh

-- Powers of naturals are the core operation, whatever else is in scope.
attribute [local instance (high)] instPowNat

/-- The quotient to the nearest natural, a half to the even one. -/
def roundHalfEven (num den : Nat) : Nat :=
  let below := num / den
  let rest := num % den
  if 2 * rest < den then below
  else if den < 2 * rest then below + 1
  else below + below % 2

namespace FloatFormat

variable (f : FloatFormat)

/-- The value of a finite magnitude code, counted in least positive numbers. -/
def units (code : Nat) : Nat :=
  let step := code / 2 ^ f.fractionBits - 1
  (code - step * 2 ^ f.fractionBits) * 2 ^ step

/-- The magnitude code nearest to `num / den`. What is too great becomes infinity. -/
def round (num den : Nat) : Nat :=
  let scaled := num * 2 ^ f.scale
  let step := (scaled / den).log2 - f.fractionBits
  min (step * 2 ^ f.fractionBits + roundHalfEven scaled (den * 2 ^ step)) f.infinity

theorem round_lt (num den : Nat) : f.round num den < 2 ^ f.width :=
  Nat.lt_of_le_of_lt (Nat.min_le_right _ _) f.infinity_lt

end FloatFormat

namespace Binary

variable {f g : FloatFormat}

/-- The number of the given sign nearest to `num / den`. -/
def nearest (negative : Bool) (num den : Nat) : Binary f :=
  ⟨negative, f.round num den, f.round_lt num den⟩

/-- The number nearest to an integer; zero has no sign. -/
def ofInt (i : Int) : Binary f := nearest (i < 0) i.natAbs 1

/-- The value of a finite number, counted in least positive numbers. -/
def units (x : Binary f) : Int :=
  if x.negative then -(f.units x.magnitude : Int) else f.units x.magnitude

/-- The number of format `g` nearest to a number of format `f`, with its sign. -/
def convert (x : Binary f) : Binary g :=
  if x.isNaN then { nan with negative := x.negative }
  else if x.isFinite then nearest x.negative (f.units x.magnitude) (2 ^ f.scale)
  else infinite x.negative

/-- How far two numbers are apart, rounded once; NaN when one is NaN or both are one infinity. -/
def distance (x y : Binary f) : Binary f :=
  if x.isNaN || y.isNaN then nan
  else if x.isFinite && y.isFinite then nearest false (x.units - y.units).natAbs (2 ^ f.scale)
  else if x = y then nan
  else infinite false

theorem distance_comm (x y : Binary f) : x.distance y = y.distance x := by
  unfold distance
  have h : (x.units - y.units).natAbs = (y.units - x.units).natAbs := by omega
  simp only [Bool.or_comm x.isNaN, Bool.and_comm x.isFinite, h, eq_comm (a := x)]

end Binary

/-- A number of four bytes as one of eight bytes, which holds it exactly. -/
def Single.widen (x : Single) : Double := x.convert

/-- A number of eight bytes to the nearest of four bytes. -/
def Double.narrow (x : Double) : Single := x.convert

end RenderMesh
