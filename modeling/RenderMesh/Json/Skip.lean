import RenderMesh.Json.Number
import RenderMesh.Json.Sequence

/-!
# Skipping values

A value that nobody asks for is passed over. Its grammar is checked and nothing else: numbers of
any size, halves of surrogate pairs and any depth are let through. The brackets that are still open
are kept in a list, so depth costs no recursion.
-/

namespace RenderMesh.Json

/-- What is open around a value. -/
inductive Bracket where
  | list
  | object
deriving DecidableEq, Repr

namespace Bracket

def closing : Bracket → Char
  | .list => ']'
  | .object => '}'

/-- The fault of a text that ends inside. -/
def unfinished : Bracket → Fault
  | .list => .unfinished .list
  | .object => .unfinished .object

/-- The fault of a value that neither a comma nor the end follows. -/
def expectedEnd : Bracket → Fault
  | .list => .expectedListEnd
  | .object => .expectedObjectEnd

end Bracket

def skipString : Scanner Unit := fun cs => do
  let (_, rest) ← charsWithin (fun cs => (hexWord cs).map fun (_, rest) => (' ', rest)) cs [] cs
  return ((), rest)

/-- The start of a member: its name and the colon. Other entries have no start. -/
def skipEntryStart : Bracket → Scanner Unit
  | .list, cs => .ok ((), cs)
  | .object, cs =>
    match skipBlanks cs with
    | [] => .error (.unfinished .object)
    | '"' :: rest => do
      let (_, rest) ← skipString rest
      colon rest
    | _ => .error .keyNotString

def skipScalar : Scanner Unit
  | [] => .error (.unfinished .value)
  | 'n' :: rest => word ['u', 'l', 'l'] rest
  | 't' :: rest => word ['r', 'u', 'e'] rest
  | 'f' :: rest => word ['a', 'l', 's', 'e'] rest
  | '"' :: rest => skipString rest
  | c :: rest =>
    if startsLiteral c then (literal .invalidNumber (c :: rest)).map fun (_, rest) => ((), rest)
    else .error .expectedValue

/-- The bracket that a value starts with. -/
def openingBracket : List Char → Option (Bracket × List Char)
  | '[' :: rest => some (.list, rest)
  | '{' :: rest => some (.object, rest)
  | _ => none

/-- The rest of a value inside the `outer` brackets, innermost first: where `due`, a value comes
next, else one has ended. Every step takes a character, so a `bound` as long as the text is not
used up before the text. -/
def skipWithin : (bound : List Char) → (due : Bool) → (outer : List Bracket) → Scanner Unit
  | _, false, [], cs => .ok ((), cs)
  | [], true, _, _ => .error (.unfinished .value)
  | [], false, bracket :: _, _ => .error bracket.unfinished
  | _ :: bound, true, outer, cs =>
    match openingBracket (skipBlanks cs) with
    | none => do
      let (_, rest) ← skipScalar (skipBlanks cs)
      skipWithin bound false outer rest
    | some (bracket, rest) =>
      match skipBlanks rest with
      | [] => .error bracket.unfinished
      | c :: rest =>
        if c = bracket.closing then skipWithin bound false outer rest
        else do
          let (_, rest) ← skipEntryStart bracket (c :: rest)
          skipWithin bound true (bracket :: outer) rest
  | _ :: bound, false, bracket :: outer, cs =>
    match skipBlanks cs with
    | [] => .error bracket.unfinished
    | c :: rest =>
      if c = ',' then do
        let (_, rest) ← skipEntryStart bracket rest
        skipWithin bound true (bracket :: outer) rest
      else if c = bracket.closing then skipWithin bound false outer rest
      else .error bracket.expectedEnd

def skipValue : Scanner Unit := fun cs => skipWithin cs true [] cs

end RenderMesh.Json
