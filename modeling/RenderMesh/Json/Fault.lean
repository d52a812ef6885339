import RenderMesh.Number.Style
import RenderMesh.Text.Quoted

/-!
# Faults of JSON text

Why a text is not read: it ends too early, it breaks the grammar, or it does not hold what is
asked for. The causes are values; their wording is one function.
-/

namespace RenderMesh.Json

/-- What is unfinished when a text ends too early. -/
inductive Unfinished where
  | value
  | list
  | object
  | string
deriving DecidableEq, Repr

/-- A value that stands where another kind is asked for. -/
inductive Found where
  | null
  | bool (value : Bool)
  | integer (value : Int)
  | double (value : Double)
  | string (value : String)
  | sequence
  | map
deriving DecidableEq

/-- Which kind of fault a cause belongs to. -/
inductive FaultKind where
  | ending
  | grammar
  | content
deriving DecidableEq, Repr

inductive Fault where
  | unfinished (what : Unfinished)
  | expectedValue
  | expectedWord
  | expectedColon
  | expectedListEnd
  | expectedObjectEnd
  | trailingComma
  | trailingCharacters
  | keyNotString
  | invalidNumber
  | numberOutOfRange
  | invalidEscape
  | unfinishedHexEscape
  | loneSurrogate
  | controlCharacter
  | tooDeep
  | wrongType (found : Found) (wanted : String)
  | outOfRange (found : Int) (wanted : String)
  | wrongLength (length : Nat) (wanted : String)
  | unknownName (name : String) (known : List String)
  | duplicateField (name : String)
  | missingField (name : String)
deriving DecidableEq

def Unfinished.name : Unfinished → String
  | .value => "a value"
  | .list => "a list"
  | .object => "an object"
  | .string => "a string"

def marked (name : String) : String := "\x60" ++ name ++ "\x60"

def Found.message : Found → String
  | .null => "null"
  | .bool value => "boolean " ++ marked (if value then "true" else "false")
  | .integer value => "integer " ++ marked (String.ofList (integerText value))
  | .double value => "floating point " ++ marked (String.ofList (value.write .compactDouble))
  | .string value => "string " ++ Text.quoted value
  | .sequence => "sequence"
  | .map => "map"

/-- The names that are known, in a message. -/
def knownNames : List String → String
  | [] => "there are no variants"
  | [name] => "expected " ++ marked name
  | [first, second] => "expected " ++ marked first ++ " or " ++ marked second
  | names => "expected one of " ++ ", ".intercalate (names.map marked)

namespace Fault

def kind : Fault → FaultKind
  | .unfinished _ => .ending
  | .wrongType .. | .outOfRange .. | .wrongLength .. | .unknownName .. | .duplicateField _
  | .missingField _ => .content
  | _ => .grammar

/-- The wording of a fault, without where in the text it was found, which is told after it. -/
def message : Fault → String
  | .unfinished what => "EOF while parsing " ++ what.name
  | .expectedValue => "expected value"
  | .expectedWord => "expected ident"
  | .expectedColon => "expected " ++ marked ":"
  | .expectedListEnd => "expected " ++ marked "," ++ " or " ++ marked "]"
  | .expectedObjectEnd => "expected " ++ marked "," ++ " or " ++ marked "\x7d"
  | .trailingComma => "trailing comma"
  | .trailingCharacters => "trailing characters"
  | .keyNotString => "key must be a string"
  | .invalidNumber => "invalid number"
  | .numberOutOfRange => "number out of range"
  | .invalidEscape => "invalid escape"
  | .unfinishedHexEscape => "unexpected end of hex escape"
  | .loneSurrogate => "lone leading surrogate in hex escape"
  | .controlCharacter => "control character (\\u0000-\\u001F) found while parsing a string"
  | .tooDeep => "recursion limit exceeded"
  | .wrongType found wanted => "invalid type: " ++ found.message ++ ", expected " ++ wanted
  | .outOfRange found wanted =>
    "invalid value: integer " ++ marked (String.ofList (integerText found)) ++ ", expected "
      ++ wanted
  | .wrongLength length wanted => s!"invalid length {length}, expected {wanted}"
  | .unknownName name known => "unknown variant " ++ marked name ++ ", " ++ knownNames known
  | .duplicateField name => "duplicate field " ++ marked name
  | .missingField name => "missing field " ++ marked name

end Fault

end RenderMesh.Json
