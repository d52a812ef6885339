import RenderMesh.Number.Decimal

/-!
# Numbers in words

A number that a person gives: a sign, digits with a point among them and a power of ten, or the
name of infinity or NaN in letters of any case.
-/

namespace RenderMesh

/-- The sign that a text starts with and the text after it. -/
def signOf : List Char → Bool × List Char
  | '-' :: cs => (true, cs)
  | '+' :: cs => (false, cs)
  | cs => (false, cs)

/-- A natural of digits only, of which there must be one. -/
def naturalOf? (cs : List Char) : Option Nat :=
  if cs.isEmpty || !cs.all Char.isDigit then none else some (Nat.ofDigitChars 10 cs 0)

/-- The power of ten that ends a number; without one it is zero. -/
def exponentOf? : List Char → Option Int
  | [] => some 0
  | c :: cs =>
    if c = 'e' || c = 'E' then
      let (negative, cs) := signOf cs
      (naturalOf? cs).map fun n => if negative then -n else n
    else none

/-- The digits after a point, and the text after them. -/
def fractionOf : List Char → List Char × List Char
  | '.' :: cs => (cs.takeWhile Char.isDigit, cs.dropWhile Char.isDigit)
  | cs => ([], cs)

def decimalOf? (cs : List Char) : Option Decimal := do
  let whole := cs.takeWhile Char.isDigit
  let (fraction, rest) := fractionOf (cs.dropWhile Char.isDigit)
  let digits ← naturalOf? (whole ++ fraction)
  let exponent ← exponentOf? rest
  return ⟨digits, exponent - fraction.length⟩

/-- The number of format `f` that a text stands for, rounded. -/
def Binary.ofText? {f : FloatFormat} (text : String) : Option (Binary f) :=
  let (negative, cs) := signOf text.toList
  let name := String.ofList (cs.map Char.toLower)
  if name = "inf" || name = "infinity" then some (.infinite negative)
  else if name = "nan" then some { (nan : Binary f) with negative }
  else (decimalOf? cs).map (Decimal.toBinary negative)

end RenderMesh
