import RenderMesh.Number.Decimal

/-!
# Shortest decimals

The shortest decimal of a number is the one with the fewest digits among those that read back to
the number, and of these the nearest. On a decimal grid only the two neighbours of the value can
be it, so the grids are tried from coarse to fine and the first with a hit wins.
-/

namespace RenderMesh

-- Powers of naturals are the core operation, whatever else is in scope.
attribute [local instance (high)] instPowNat

/-- Which of two decimals at the same distance is taken. -/
inductive Tie where
  | even
  | up
deriving DecidableEq, Repr

namespace FloatFormat

variable (f : FloatFormat)

/-- The power of ten of the first digit of `num / den`, a positive ratio. -/
def leadingExponent (num den : Nat) : Int :=
  if den ≤ num then (decimalSize (num / den) : Int) - 1
  else -(decimalSize ((den - 1) / num) : Int)

/-- Whether `point * span` lies between the half-way points `low` and `high` to the neighbours of
a code. They belong to the code when it is even. -/
def holds (code low high place : Nat) : Bool :=
  if code % 2 = 0 then low ≤ place && place ≤ high else low < place && place < high

/-- The multiple of `10 ^ exponent` that reads back to a code and is nearest to its value. -/
def pointOnGrid (tie : Tie) (code : Nat) (exponent : Int) : Option Nat :=
  let grow := 10 ^ (-exponent).toNat
  let span := 2 * 2 ^ f.scale * 10 ^ exponent.toNat
  let low := (f.units (code - 1) + f.units code) * grow
  let value := 2 * f.units code * grow
  let high := (f.units code + f.units (code + 1)) * grow
  let k := value / span
  match holds code low high (k * span), holds code low high ((k + 1) * span) with
  | false, false => none
  | true, false => some k
  | false, true => some (k + 1)
  | true, true =>
    let below := value - k * span
    let above := (k + 1) * span - value
    if below < above then some k
    else if above < below then some (k + 1)
    else match tie with
      | .even => some (k + k % 2)
      | .up => some (k + 1)

/-- All digits of a finite code. -/
def exact (code : Nat) : Decimal := ⟨f.units code * 5 ^ f.scale, -(f.scale : Int)⟩

/-- The shortest decimal of a finite code. Seventeen digits are enough for eight bytes. -/
def shortest (tie : Tie) (code : Nat) : Decimal :=
  if code = 0 then ⟨0, 0⟩
  else
    let first := leadingExponent (f.units code) (2 ^ f.scale)
    let found := (List.range 17).findSome? fun (n : Nat) =>
      (f.pointOnGrid tie code (first - n)).map fun k => Decimal.mk k (first - n)
    (found.map (Decimal.reduce 17)).getD (f.exact code)

end FloatFormat

end RenderMesh
