import RenderMesh.Json.Fault

/-!
# Scanning JSON text

Text is read once, from left to right, so the first fault decides. A scanner reads the start of a
text and leaves the rest to the next one.
-/

namespace RenderMesh.Json

/-- Reads the start of a text: a value and the text after it, or the fault that was met. -/
abbrev Scanner (α : Type) := List Char → Except Fault (α × List Char)

def isBlank (c : Char) : Bool := c = ' ' || c = '\t' || c = '\n' || c = '\r'

/-- The text after its leading blanks. -/
def skipBlanks (cs : List Char) : List Char := cs.dropWhile isBlank

/-- The given letters, the rest of a word whose first letter told which word it is. -/
def word : List Char → Scanner Unit
  | [], cs => .ok ((), cs)
  | _ :: _, [] => .error (.unfinished .value)
  | letter :: letters, c :: cs => if c = letter then word letters cs else .error .expectedWord

/-- Reads a whole text: after the value only blanks may follow. -/
def readWhole {α : Type} (scan : Scanner α) (text : String) : Except Fault α := do
  let (value, rest) ← scan text.toList
  if (skipBlanks rest).isEmpty then return value else throw .trailingCharacters

end RenderMesh.Json
