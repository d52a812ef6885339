import RenderMesh.Number.Shortest

/-!
# Written numbers

A style of writing says how ties between shortest decimals go, which numbers stand without an
exponent and whether a whole number keeps its point.
-/

namespace RenderMesh

def naturalText (n : Nat) : List Char := Nat.toDigits 10 n

/-- Decimal digits of an integer, after a sign when it is negative. -/
def integerText (i : Int) : List Char :=
  if i < 0 then '-' :: naturalText i.natAbs else naturalText i.natAbs

structure NumberStyle where
  tie : Tie
  /-- Powers of ten of the first digit, from least to greatest, that stand without an exponent;
  without bounds all do. -/
  plain : Option (Int × Int)
  /-- Whether a whole number without an exponent ends in `.0`. -/
  point : Bool
deriving DecidableEq

namespace NumberStyle

/-- Numbers of four bytes in compact text. -/
def compactSingle : NumberStyle := ⟨.even, some (-6, 12), true⟩

/-- Numbers of eight bytes in compact text. -/
def compactDouble : NumberStyle := ⟨.even, some (-5, 15), true⟩

def message : NumberStyle := ⟨.up, none, false⟩

/-- Digits scaled by a power of ten, without an exponent. -/
def writePlain (point : Bool) (digits : List Char) (exponent : Int) : List Char :=
  if 0 ≤ exponent then
    digits ++ List.replicate exponent.toNat '0' ++ (if point then ['.', '0'] else [])
  else
    let places := (-exponent).toNat
    if digits.length ≤ places then
      '0' :: '.' :: List.replicate (places - digits.length) '0' ++ digits
    else
      digits.take (digits.length - places) ++ '.' :: digits.drop (digits.length - places)

/-- Digits with a point after the first, then the power of ten of the first with its sign. -/
def writeScientific (digits : List Char) (lead : Int) : List Char :=
  digits.take 1 ++ (if digits.length ≤ 1 then [] else '.' :: digits.drop 1)
    ++ 'e' :: (if lead < 0 then '-' else '+') :: naturalText lead.natAbs

def write (style : NumberStyle) (d : Decimal) : List Char :=
  let digits := naturalText d.digits
  let lead := (digits.length : Int) - 1 + d.exponent
  match style.plain with
  | none => writePlain style.point digits d.exponent
  | some (least, greatest) =>
    if least ≤ lead && lead ≤ greatest then writePlain style.point digits d.exponent
    else writeScientific digits lead

end NumberStyle

/-- A number in a style: its shortest decimal, or the name of what is not finite. -/
def Binary.write {f : FloatFormat} (style : NumberStyle) (x : Binary f) : List Char :=
  if x.isNaN then ['N', 'a', 'N']
  else
    (if x.negative then ['-'] else []) ++
      if x.isFinite then style.write (f.shortest style.tie x.magnitude) else ['i', 'n', 'f']

def Binary.display {f : FloatFormat} (x : Binary f) : String :=
  String.ofList (x.write .message)

end RenderMesh
