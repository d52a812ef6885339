import RenderMesh.Json.Document
import RenderMesh.Json.Skip
import RenderMesh.Named

/-!
# Codecs

A codec says how a type is read from JSON text and what is written for it. Codecs of simple types
are given; those of records are put together from codecs of their fields.
-/

namespace RenderMesh.Json

/-- How a type stands in JSON. -/
structure Codec (α : Type) where
  read : Scanner α
  document : α → Document

/-! ### Values of another kind -/

/-- The value that a text starts with, as messages name it. -/
def found : List Char → Except Fault Found
  | [] => .error (.unfinished .value)
  | 'n' :: rest => (word ['u', 'l', 'l'] rest).map fun _ => .null
  | 't' :: rest => (word ['r', 'u', 'e'] rest).map fun _ => .bool true
  | 'f' :: rest => (word ['a', 'l', 's', 'e'] rest).map fun _ => .bool false
  | '"' :: rest => (stringRest rest).map fun (value, _) => .string value
  | '[' :: _ => .ok .sequence
  | '{' :: _ => .ok .map
  | c :: rest =>
    if startsLiteral c then
      (number (c :: rest)).map fun
        | (.integer value, _) => .integer value
        | (.double value, _) => .double value
    else .error .expectedValue

/-- The fault of a text that does not start with what is wanted; a value that is itself at fault
comes first. -/
def mismatch (wanted : String) (cs : List Char) : Fault :=
  match found cs with
  | .ok other => .wrongType other wanted
  | .error fault => fault

namespace Codec

variable {α β : Type}

def parse (codec : Codec α) (text : String) : Except Fault α := readWhole codec.read text

def write (codec : Codec α) (a : α) : String := (codec.document a).compact

/-- A codec for values that stand for those of another. -/
def map (codec : Codec α) (there : α → β) (back : β → α) : Codec β where
  read cs := (codec.read cs).map fun (a, rest) => (there a, rest)
  document b := codec.document (back b)

/-! ### Simple types -/

def string : Codec String where
  read cs :=
    match skipBlanks cs with
    | '"' :: rest => stringRest rest
    | cs => .error (mismatch "a string" cs)
  document := .string

def bool : Codec Bool where
  read cs :=
    match skipBlanks cs with
    | 't' :: rest => (word ['r', 'u', 'e'] rest).map fun (_, rest) => (true, rest)
    | 'f' :: rest => (word ['a', 'l', 's', 'e'] rest).map fun (_, rest) => (false, rest)
    | cs => .error (mismatch "a boolean" cs)
  document := .bool

/-- A number, by the name that messages have for what is wanted. -/
def readNumber (wanted : String) : Scanner Number := fun cs =>
  match skipBlanks cs with
  | [] => .error (.unfinished .value)
  | c :: rest =>
    if startsLiteral c then number (c :: rest) else .error (mismatch wanted (c :: rest))

/-- Naturals up to `limit`, from integer literals alone. -/
def natural (limit : Nat) (wanted : String) : Codec Nat where
  read cs := do
    let (value, rest) ← readNumber wanted cs
    match value with
    | .integer i =>
      if 0 ≤ i ∧ i ≤ limit then return (i.toNat, rest) else throw (.outOfRange i wanted)
    | .double x => throw (.wrongType (.double x) wanted)
  document := .ofNat

def byte : Codec UInt8 := (natural (UInt8.size - 1) "u8").map Nat.toUInt8 UInt8.toNat

def word : Codec UInt32 := (natural (UInt32.size - 1) "u32").map Nat.toUInt32 UInt32.toNat

/-- Counts and places, of 64 bits. -/
def count : Codec Nat := natural (UInt64.size - 1) "usize"

/-- Numbers of four bytes: integers are rounded once, others by way of eight bytes. -/
def single : Codec Single where
  read cs := do
    let (value, rest) ← readNumber "f32" cs
    match value with
    | .integer i => return (.ofInt i, rest)
    | .double x => return (x.narrow, rest)
  document := .ofSingle

def array (codec : Codec α) : Codec (Array α) where
  read cs :=
    match skipBlanks cs with
    | '[' :: rest => (entries codec.read rest).map fun (found, rest) => (found.toArray, rest)
    | cs => .error (mismatch "a sequence" cs)
  document found := .array (found.toList.map codec.document)

/-! ### Named members -/

/-- The member of a name. -/
def memberOf [Named α] (name : String) : Except Fault α :=
  match Named.ofName? name with
  | some a => .ok a
  | none => .error (.unknownName name ((Named.all : List α).map Named.name))

/-- The name that an object starts with, after its opening brace. -/
def readName : Scanner String := fun cs =>
  match skipBlanks cs with
  | [] => .error (.unfinished .object)
  | '"' :: rest => stringRest rest
  | '}' :: _ => .error .expectedValue
  | _ => .error .keyNotString

def readNull : Scanner Unit := fun cs =>
  match skipBlanks cs with
  | 'n' :: rest => Json.word ['u', 'l', 'l'] rest
  | cs => .error (mismatch "unit" cs)

/-- A type whose members have names: the name, or an object with the name and a null. -/
def named [Named α] : Codec α where
  read cs :=
    match skipBlanks cs with
    | [] => .error (.unfinished .value)
    | '"' :: rest => do
      let (name, rest) ← stringRest rest
      return (← memberOf name, rest)
    | '{' :: rest => do
      let (name, rest) ← readName rest
      let a ← memberOf name
      let (_, rest) ← colon rest
      let (_, rest) ← readNull rest
      match skipBlanks rest with
      | [] => throw (.unfinished .object)
      | '}' :: rest => return (a, rest)
      | _ => throw .expectedValue
    | _ => .error .expectedValue
  document a := .string (Named.name a)

end Codec

/-! ### Records -/

/-- A field of a record: its name, how it is read into a record, and what is written of it. -/
structure RecordField (σ : Type) where
  name : String
  read : Scanner (σ → σ)
  document : σ → Document

/-- The field of a codec, a projection and an update. -/
def RecordField.of {σ α : Type} (name : String) (codec : Codec α) (get : σ → α) (set : σ → α → σ) :
    RecordField σ where
  name := name
  read cs := (codec.read cs).map fun (a, rest) => (fun s => set s a, rest)
  document s := codec.document (get s)

/-- The entries of a list after its opening bracket as fields in their order. A list that ends
before the fields do is at fault if `whole` says what is wanted, else it leaves the rest as it
is. -/
def entriesInto {σ : Type} (whole : Option String) :
    (read : Nat) → List (RecordField σ) → σ → Scanner σ
  | _, [], s, cs => do
    let (_, cs) ← closeList cs
    return (s, cs)
  | read, field :: rest, s, cs => do
    let (more, cs) ← anotherEntry (read == 0) cs
    if more then
      let (set, cs) ← field.read cs
      entriesInto whole (read + 1) rest (set s) cs
    else
      match whole with
      | some wanted => throw (.wrongLength read wanted)
      | none =>
        let (_, cs) ← closeList cs
        return (s, cs)

/-- The codec of a type that stands as the list of all its fields. -/
def Codec.tuple {σ : Type} (wanted : String) (fields : List (RecordField σ)) (initial : σ) :
    Codec σ where
  read cs :=
    match skipBlanks cs with
    | '[' :: rest => entriesInto (some wanted) 0 fields initial rest
    | cs => .error (mismatch wanted cs)
  document s := .array (fields.map fun field => field.document s)

/-- How a structure is read: from an object, or from a list of its fields in order. -/
structure Record (σ : Type) where
  name : String
  fields : List (RecordField σ)
  /-- What fields that are left out keep. -/
  initial : σ
  /-- Whether no field may be left out. -/
  complete : Bool := false

namespace Record

variable {σ : Type} (record : Record σ)

/-- What messages say is wanted. -/
def wanted : String := "struct " ++ record.name

/-- What messages say is wanted where a list is too short. -/
def wantedLength : Option String :=
  if record.complete then some s!"{record.wanted} with {record.fields.length} elements" else none

/-- The first field that has to be given and is not among the `seen`. -/
def missing? (seen : List String) : Option String :=
  if record.complete then (record.fields.map RecordField.name).find? fun name => !seen.contains name
  else none

/-- The members of an object after its opening brace as fields, in any order and each at most once.
Members of other names are skipped. Every member takes a character, so a `bound` as long as the text
is not used up before the text. -/
def membersInto : (bound : List Char) → (first : Bool) → (seen : List String) → σ → Scanner σ
  | [], _, _, _, _ => .error (.unfinished .object)
  | _ :: bound, first, seen, s, cs => do
    let (name?, cs) ← nextName first cs
    match name? with
    | none =>
      match record.missing? seen with
      | some name => throw (.missingField name)
      | none =>
        let (_, cs) ← closeObject cs
        return (s, cs)
    | some name =>
      match record.fields.find? fun field => field.name == name with
      | none =>
        let (_, cs) ← colon cs
        let (_, cs) ← skipValue cs
        membersInto bound false seen s cs
      | some field =>
        if seen.contains name then throw (.duplicateField name)
        else
          let (_, cs) ← colon cs
          let (set, cs) ← field.read cs
          membersInto bound false (name :: seen) (set s) cs

/-- The codec of a record. It is written as an object with all fields. -/
def codec : Codec σ where
  read cs :=
    match skipBlanks cs with
    | '[' :: rest => entriesInto record.wantedLength 0 record.fields record.initial rest
    | '{' :: rest => membersInto record rest true [] record.initial rest
    | cs => .error (mismatch record.wanted cs)
  document s := .object (record.fields.map fun field => (field.name, field.document s))

end Record

end RenderMesh.Json
