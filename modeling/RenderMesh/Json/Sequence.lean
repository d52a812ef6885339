import RenderMesh.Json.Text

/-!
# Lists and objects in JSON text

What stands between the entries of a list and the members of an object, for readers that know how to
read the entries. A comma has to be followed by an entry.
-/

namespace RenderMesh.Json

/-! ### Lists -/

/-- Whether another entry of a list follows. A comma before it is taken. -/
def anotherEntry (first : Bool) (cs : List Char) : Except Fault (Bool × List Char) :=
  match skipBlanks cs with
  | [] => .error (.unfinished .list)
  | ']' :: rest => .ok (false, ']' :: rest)
  | c :: rest =>
    if first then .ok (true, c :: rest)
    else if c = ',' then
      match skipBlanks rest with
      | [] => .error (.unfinished .value)
      | ']' :: _ => .error .trailingComma
      | rest => .ok (true, rest)
    else .error .expectedListEnd

/-- The bracket that closes a list that has all its entries. -/
def closeList : Scanner Unit := fun cs =>
  match skipBlanks cs with
  | [] => .error (.unfinished .list)
  | ']' :: rest => .ok ((), rest)
  | ',' :: rest => if (skipBlanks rest).head? = some ']' then .error .trailingComma
    else .error .trailingCharacters
  | _ => .error .trailingCharacters

/-- The entries of a list, each read by `entry`, after those in `done`. Every entry takes a
character, so a `bound` as long as the text is not used up before the text. -/
def entriesWithin {α : Type} (entry : Scanner α) :
    (bound : List Char) → (first : Bool) → (done : List α) → Scanner (List α)
  | [], _, _, _ => .error (.unfinished .list)
  | _ :: bound, first, done, cs => do
    let (more, cs) ← anotherEntry first cs
    if more then
      let (a, cs) ← entry cs
      entriesWithin entry bound false (a :: done) cs
    else
      let (_, cs) ← closeList cs
      return (done.reverse, cs)

def entries {α : Type} (entry : Scanner α) : Scanner (List α) := fun cs =>
  entriesWithin entry cs true [] cs

/-! ### Objects -/

/-- The name of the next member of an object, if one follows. -/
def nextName (first : Bool) (cs : List Char) : Except Fault (Option String × List Char) :=
  match skipBlanks cs with
  | [] => .error (.unfinished .object)
  | '}' :: rest => .ok (none, '}' :: rest)
  | c :: rest =>
    if first then
      if c = '"' then (stringRest rest).map fun (name, rest) => (some name, rest)
      else .error .keyNotString
    else if c = ',' then
      match skipBlanks rest with
      | [] => .error (.unfinished .value)
      | '"' :: rest => (stringRest rest).map fun (name, rest) => (some name, rest)
      | '}' :: _ => .error .trailingComma
      | _ => .error .keyNotString
    else .error .expectedObjectEnd

/-- The brace that closes an object that has all its members. -/
def closeObject : Scanner Unit := fun cs =>
  match skipBlanks cs with
  | [] => .error (.unfinished .object)
  | '}' :: rest => .ok ((), rest)
  | ',' :: _ => .error .trailingComma
  | _ => .error .trailingCharacters

/-- The colon after the name of a member. -/
def colon : Scanner Unit := fun cs =>
  match skipBlanks cs with
  | [] => .error (.unfinished .object)
  | ':' :: rest => .ok ((), rest)
  | _ => .error .expectedColon

/-- The members of an object, each value read by `value`, after those in `done`. Every member takes
a character, so a `bound` as long as the text is not used up before the text. -/
def membersWithin {α : Type} (value : Scanner α) :
    (bound : List Char) → (first : Bool) → (done : List (String × α)) →
      Scanner (List (String × α))
  | [], _, _, _ => .error (.unfinished .object)
  | _ :: bound, first, done, cs => do
    let (name?, cs) ← nextName first cs
    match name? with
    | some name =>
      let (_, cs) ← colon cs
      let (a, cs) ← value cs
      membersWithin value bound false ((name, a) :: done) cs
    | none =>
      let (_, cs) ← closeObject cs
      return (done.reverse, cs)

end RenderMesh.Json
