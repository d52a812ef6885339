import RenderMesh.Json.Scan

/-!
# JSON strings

Characters between quotes. A backslash starts an escape: a letter, or four hexadecimal digits that
name a character by its 16-bit unit; characters of two units take two such escapes.
-/

namespace RenderMesh.Json

def hexDigit? (c : Char) : Option Nat :=
  if '0' ≤ c && c ≤ '9' then some (c.toNat - '0'.toNat)
  else if 'a' ≤ c && c ≤ 'f' then some (c.toNat - 'a'.toNat + 10)
  else if 'A' ≤ c && c ≤ 'F' then some (c.toNat - 'A'.toNat + 10)
  else none

/-- Four hexadecimal digits. Text of fewer than four bytes is unfinished whatever it holds. -/
def hexWord : Scanner Nat
  | a :: b :: c :: d :: rest =>
    match hexDigit? a, hexDigit? b, hexDigit? c, hexDigit? d with
    | some a, some b, some c, some d => .ok (((a * 16 + b) * 16 + c) * 16 + d, rest)
    | _, _, _, _ => .error .invalidEscape
  | short =>
    if 4 ≤ (String.ofList short).utf8ByteSize then .error .invalidEscape
    else .error (.unfinished .string)

def isHighSurrogate (n : Nat) : Bool := 0xD800 ≤ n && n ≤ 0xDBFF

def isLowSurrogate (n : Nat) : Bool := 0xDC00 ≤ n && n ≤ 0xDFFF

/-- The second half of a pair of surrogates, with the escape that starts it. -/
def lowSurrogate : Scanner Nat
  | '\\' :: 'u' :: cs => do
    let (low, rest) ← hexWord cs
    if isLowSurrogate low then return (low, rest) else throw .loneSurrogate
  | [] | ['\\'] => .error (.unfinished .string)
  | _ => .error .unfinishedHexEscape

/-- The character of an escape with four digits or of two such escapes, after the `u`. -/
def unicodeEscape : Scanner Char := fun cs => do
  let (n, rest) ← hexWord cs
  if isLowSurrogate n then throw .loneSurrogate
  else if isHighSurrogate n then
    let (low, rest) ← lowSurrogate rest
    return (Char.ofNat ((n - 0xD800) * 0x400 + (low - 0xDC00) + 0x10000), rest)
  else return (Char.ofNat n, rest)

/-- The character of an escape with one letter. -/
def escapedLetter? : Char → Option Char
  | '"' => some '"'
  | '\\' => some '\\'
  | '/' => some '/'
  | 'b' => some '\x08'
  | 'f' => some '\x0c'
  | 'n' => some '\n'
  | 'r' => some '\r'
  | 't' => some '\t'
  | _ => none

/-- The character of an escape, after the backslash; `unicode` reads what follows a `u`. -/
def escape (unicode : Scanner Char) : Scanner Char
  | [] => .error (.unfinished .string)
  | 'u' :: cs => unicode cs
  | c :: cs =>
    match escapedLetter? c with
    | some d => .ok (d, cs)
    | none => .error .invalidEscape

/-- Characters up to the closing quote, after those in `done`. Every step takes a character, so a
`bound` as long as the text is not used up before the text. -/
def charsWithin (unicode : Scanner Char) :
    (bound done : List Char) → Scanner (List Char)
  | _ :: bound, done, c :: cs =>
    if c = '"' then .ok (done.reverse, cs)
    else if c = '\\' then
      match escape unicode cs with
      | .ok (d, rest) => charsWithin unicode bound (d :: done) rest
      | .error fault => .error fault
    else if c < ' ' then .error .controlCharacter
    else charsWithin unicode bound (c :: done) cs
  | _, _, _ => .error (.unfinished .string)

def stringRest : Scanner String := fun cs => do
  let (chars, rest) ← charsWithin unicodeEscape cs [] cs
  return (String.ofList chars, rest)

end RenderMesh.Json
