import RenderMesh.Number.Rounding

/-!
# Decimals

A decimal is a natural scaled by a power of ten. It is read to the nearest number of a binary
format; out of reach of every format the power is not formed.
-/

namespace RenderMesh

-- Powers of naturals are the core operation, whatever else is in scope.
attribute [local instance (high)] instPowNat

/-- The number of decimal digits, one for zero. -/
def decimalSize (n : Nat) : Nat := (Nat.toDigits 10 n).length

/-- The value `digits * 10 ^ exponent`. -/
structure Decimal where
  digits : Nat
  exponent : Int
deriving DecidableEq, Repr

namespace Decimal

/-- From this power of ten on every format overflows, and below its inverse every one is zero. -/
def reach : Int := 400

/-- The magnitude code nearest to a decimal. -/
def round (d : Decimal) (f : FloatFormat) : Nat :=
  if d.digits = 0 then 0
  else if reach < d.exponent + decimalSize d.digits then f.infinity
  else if d.exponent + decimalSize d.digits < -reach then 0
  else if 0 ≤ d.exponent then f.round (d.digits * 10 ^ d.exponent.toNat) 1
  else f.round d.digits (10 ^ (-d.exponent).toNat)

theorem round_lt (d : Decimal) (f : FloatFormat) : d.round f < 2 ^ f.width := by
  have h : 0 < 2 ^ f.width := Nat.two_pow_pos _
  unfold round
  split
  · exact h
  split
  · exact f.infinity_lt
  split
  · exact h
  split
  · exact f.round_lt _ _
  · exact f.round_lt _ _

/-- The number of the given sign nearest to a decimal. -/
def toBinary {f : FloatFormat} (negative : Bool) (d : Decimal) : Binary f :=
  ⟨negative, d.round f, d.round_lt f⟩

/-- The same value with at most `n` trailing zeros moved into the exponent. -/
def reduce : Nat → Decimal → Decimal
  | 0, d => d
  | n + 1, d => if d.digits % 10 = 0 then reduce n ⟨d.digits / 10, d.exponent + 1⟩ else d

end Decimal

end RenderMesh
