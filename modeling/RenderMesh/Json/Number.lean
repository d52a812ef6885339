import RenderMesh.Json.Scan
import RenderMesh.Number.Scaling

/-!
# JSON numbers

An integer literal in the range of a signed or unsigned word is an integer; every other literal is
a number of eight bytes. Zero with a minus keeps it, so it is not an integer either.
-/

namespace RenderMesh.Json

inductive Number where
  | integer (value : Int)
  | double (value : Double)
deriving DecidableEq

namespace Number

/-- A number as JSON text; eight bytes keep their point. -/
def text : Number → List Char
  | .integer value => integerText value
  | .double value => value.write .compactDouble

end Number

/-- A number literal by its parts: digits before and after the point, and a power of ten. -/
structure Literal where
  negative : Bool
  whole : List Char
  fraction : List Char := []
  exponent : Option Int := none
deriving DecidableEq, Repr

namespace Literal

/-- Whether a literal has neither point nor exponent. -/
def isInteger (l : Literal) : Bool := l.fraction.isEmpty && l.exponent.isNone

/-- The number that digits make after `n`, as far as 64 bits hold it, and the digits beyond. -/
def wordDigits (n : Nat) : List Char → Nat × List Char
  | [] => (n, [])
  | c :: rest =>
    let next := 10 * n + (c.toNat - '0'.toNat)
    if next < UInt64.size then wordDigits next rest else (n, c :: rest)

/-- The value of a literal without its sign. Digits that 64 bits do not hold are zeros before the
point and nothing after it. -/
def decimal (l : Literal) : Decimal :=
  let (whole, beyond) := wordDigits 0 l.whole
  let (digits, dropped) := wordDigits whole l.fraction
  ⟨digits, l.exponent.getD 0 + beyond.length - (l.fraction.length - dropped.length)⟩

/-- The number of eight bytes that a literal is scaled to; none is infinite. -/
def double (l : Literal) : Except Fault Double :=
  let size := Double.scaled l.decimal.digits l.decimal.exponent
  if size.isFinite then .ok { size with negative := l.negative } else .error .numberOutOfRange

/-- The number of a literal. An integer has an exponent only if 64 bits do not hold it. -/
def number (l : Literal) : Except Fault Number :=
  let n := l.decimal.digits
  let fits : Bool := l.isInteger && l.decimal.exponent = 0
  if fits && !l.negative then .ok (.integer n)
  else if fits && 0 < n && Int64.minValue.toInt ≤ -(n : Int) then .ok (.integer (-n))
  else l.double.map .double

end Literal

/-! ### Literals -/

/-- The digits at the start of a text, of which there must be one; `ended` is the fault where the
text ends instead. -/
def digits (ended : Fault) : Scanner (List Char)
  | [] => .error ended
  | c :: cs =>
    if c.isDigit then .ok (c :: cs.takeWhile Char.isDigit, cs.dropWhile Char.isDigit)
    else .error .invalidNumber

/-- The digits before the point; a zero among them stands alone or is not the first. -/
def wholeDigits (ended : Fault) (cs : List Char) : Except Fault (List Char × List Char) := do
  let (found, rest) ← digits ended cs
  if 1 < found.length && found.head? = some '0' then throw .invalidNumber
  else return (found, rest)

/-- A point and the digits after it, if there is a point. -/
def fractionDigits (ended : Fault) : Scanner (List Char)
  | '.' :: cs => digits ended cs
  | cs => .ok ([], cs)

/-- The sign of an exponent, if it has one. -/
def exponentSign : List Char → Bool × List Char
  | '+' :: cs => (false, cs)
  | '-' :: cs => (true, cs)
  | cs => (false, cs)

def exponentPart (ended : Fault) : Scanner (Option Int)
  | c :: cs =>
    if c = 'e' || c = 'E' then do
      let (negative, cs) := exponentSign cs
      let (found, rest) ← digits ended cs
      let size : Int := Nat.ofDigitChars 10 found 0
      return (some (if negative then -size else size), rest)
    else .ok (none, c :: cs)
  | [] => .ok (none, [])

def literalRest (ended : Fault) (negative : Bool) : Scanner Literal := fun cs => do
  let (whole, cs) ← wholeDigits ended cs
  let (fraction, cs) ← fractionDigits ended cs
  let (exponent, cs) ← exponentPart ended cs
  return (⟨negative, whole, fraction, exponent⟩, cs)

/-- A literal that starts with a minus or a digit. -/
def literal (ended : Fault) : Scanner Literal
  | '-' :: cs => literalRest ended true cs
  | cs => literalRest ended false cs

/-- Whether a literal starts with this character. -/
def startsLiteral (c : Char) : Bool := c = '-' || c.isDigit

/-- A number that starts with a minus or a digit. -/
def number : Scanner Number := fun cs => do
  let (l, rest) ← literal (.unfinished .value) cs
  return (← l.number, rest)

end RenderMesh.Json
