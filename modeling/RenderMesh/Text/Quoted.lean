import RenderMesh.Text.Class

/-!
# Quoted text

Text as messages show it: between quotes, on one line, with every character visible.
-/

namespace RenderMesh.Text

/-- A character of quoted text. What cannot be seen alone stands as its code point. -/
def quotedChar (c : Char) : List Char :=
  if c = '\x00' then ['\\', '0']
  else if c = '\t' then ['\\', 't']
  else if c = '\r' then ['\\', 'r']
  else if c = '\n' then ['\\', 'n']
  else if c = '\\' || c = '"' then ['\\', c]
  else if ' ' ≤ c && c ≤ '~' then [c]
  else if isExtender c || !isPrintable c then
    ['\\', 'u', '\x7b'] ++ Nat.toDigits 16 c.toNat ++ ['\x7d']
  else [c]

def quoted (text : String) : String :=
  String.ofList ('"' :: text.toList.flatMap quotedChar ++ ['"'])

end RenderMesh.Text
