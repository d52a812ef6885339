/-!
# Text for terminals

Text that is shown on a terminal must not command it. Characters that could are written as their
codes, all others stand for themselves.
-/

namespace RenderMesh.Text

/-- Whether a terminal may take a character for a command: bell, backspace, form feed, escape,
delete and the control characters of eight bits. -/
def isCommand (c : Char) : Bool :=
  c = '\x07' || c = '\x08' || c = '\x0c' || c = '\x1b' || '\x7f' ≤ c && c.toNat ≤ 0x9f

/-- A character, or its code: two digits in seven bits, else the digits it has between braces. -/
def inertChar (c : Char) : List Char :=
  if !isCommand c then [c]
  else if c ≤ '\x7f' then
    ['\\', 'x', Nat.digitChar (c.toNat / 16), Nat.digitChar (c.toNat % 16)]
  else ['\\', 'u', '{'] ++ Nat.toDigits 16 c.toNat ++ ['}']

def inert (text : String) : String := String.ofList (text.toList.flatMap inertChar)

end RenderMesh.Text
