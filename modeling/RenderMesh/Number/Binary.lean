/-!
# Binary interchange numbers

A number of a binary format is a sign and a magnitude code. Codes grow with the values they stand
for, so comparison needs no decoding: finite numbers, then infinity, then the codes of NaN.
-/

namespace RenderMesh

-- Powers of naturals are the core operation, whatever else is in scope.
attribute [local instance (high)] instPowNat

/-- Widths of the exponent field and of the fraction field. -/
structure FloatFormat where
  exponentBits : Nat
  fractionBits : Nat
deriving DecidableEq, Repr

namespace FloatFormat

/-- Four bytes: eight bits of exponent, 23 of fraction. -/
def single : FloatFormat := ⟨8, 23⟩

/-- Eight bytes: eleven bits of exponent, 52 of fraction. -/
def double : FloatFormat := ⟨11, 52⟩

/-- Bits of a magnitude code. -/
def width (f : FloatFormat) : Nat := f.exponentBits + f.fractionBits

/-- The magnitude code of infinity. Smaller codes are finite, greater ones are NaN. -/
def infinity (f : FloatFormat) : Nat := (2 ^ f.exponentBits - 1) * 2 ^ f.fractionBits

/-- The least positive number is `2 ^ (-scale)`. -/
def scale (f : FloatFormat) : Nat := 2 ^ (f.exponentBits - 1) - 2 + f.fractionBits

theorem infinity_lt (f : FloatFormat) : f.infinity < 2 ^ f.width := by
  have h : 0 < 2 ^ f.exponentBits := Nat.two_pow_pos _
  rw [width, Nat.pow_add, infinity]
  exact Nat.mul_lt_mul_of_pos_right (by omega) (Nat.two_pow_pos _)

end FloatFormat

/-- A number of format `f`: its sign and its magnitude code. Equality is equality of bits. -/
structure Binary (f : FloatFormat) where
  negative : Bool
  magnitude : Nat
  magnitude_lt : magnitude < 2 ^ f.width
deriving DecidableEq

/-- Numbers of four bytes. -/
abbrev Single := Binary .single

/-- Numbers of eight bytes. -/
abbrev Double := Binary .double

namespace Binary

variable {f : FloatFormat}

/-- Zero without a sign. -/
def zero : Binary f := ⟨false, 0, Nat.two_pow_pos _⟩

instance : Inhabited (Binary f) := ⟨zero⟩

/-- Infinity of either sign. -/
def infinite (negative : Bool) : Binary f := ⟨negative, f.infinity, f.infinity_lt⟩

/-- The NaN whose fraction is all ones. -/
def nan : Binary f := ⟨false, 2 ^ f.width - 1, Nat.sub_lt (Nat.two_pow_pos _) Nat.one_pos⟩

/-- The number of a bit pattern, the sign on top. -/
def ofBits (bits : Nat) : Binary f :=
  ⟨bits.testBit f.width, bits % 2 ^ f.width, Nat.mod_lt _ (Nat.two_pow_pos _)⟩

/-- The bit pattern, the sign on top. -/
def toBits (x : Binary f) : Nat := (if x.negative then 2 ^ f.width else 0) + x.magnitude

def isNaN (x : Binary f) : Bool := f.infinity < x.magnitude

def isFinite (x : Binary f) : Bool := x.magnitude < f.infinity

/-- The place of a number in numerical order; both zeros stand at `0`. -/
def key (x : Binary f) : Int := if x.negative then -(x.magnitude : Int) else x.magnitude

/-- Numerical equality: zeros of both signs are equal, NaN equals nothing. -/
def equal (x y : Binary f) : Bool := !x.isNaN && !y.isNaN && x.key == y.key

/-- Numerical order; NaN is neither above nor below anything. -/
def less (x y : Binary f) : Bool := !x.isNaN && !y.isNaN && x.key < y.key

theorem equal_comm (x y : Binary f) : x.equal y = y.equal x := by
  simp only [equal, Bool.and_comm x.isNaN.not, Bool.beq_comm (a := x.key)]

end Binary

end RenderMesh
