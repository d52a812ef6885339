/-!
# Command lines

The words of a command line are read from left to right as options and operands. Options have a long
name and may have a letter; letters stand together in one word. The value of an option is joined to
it or is the next word, which then must not look like an option. After a lone `--` all words are
operands. The first word that cannot be accepted decides.
-/

namespace RenderMesh

/-- How an option is used. -/
inductive Usage where
  /-- Given once at most. -/
  | switch
  /-- Given any number of times. -/
  | repeatable
  /-- Given once at most, with a value. -/
  | valued
  /-- A call for help, which ends the reading. -/
  | help
deriving DecidableEq, Repr

structure CommandOption where
  name : String
  letter : Option Char := none
  usage : Usage
  /-- Which values are accepted. -/
  accepts : String → Bool := fun _ => true

/-- Why a command line is not accepted; a call for help counts as one. -/
inductive Refusal where
  | help
  | rejected
deriving DecidableEq, Repr

/-- What a word or two of a command line say. -/
inductive Argument where
  | operand (text : String)
  | option (option : CommandOption) (value : String)
  | refused (refusal : Refusal)

structure Interface where
  options : List CommandOption
  /-- How many operands there have to be, each of them not empty. -/
  operands : Nat

/-- What a command line gives: its operands, and the options with their values. -/
structure Given where
  operands : List String := []
  options : List (String × String) := []
deriving DecidableEq, Repr

namespace Given

def count (given : Given) (name : String) : Nat :=
  (given.options.filter fun option => option.1 == name).length

def value? (given : Given) (name : String) : Option String := given.options.lookup name

end Given

namespace Interface

variable (interface : Interface)

/-- Whether a word stands for options. -/
def isOptionWord (word : String) : Bool := word.startsWith "-" && word != "-"

/-- An option that has its value or needs none. -/
def argument (option : CommandOption) (value : String) : Argument :=
  if option.usage = .help then .refused .help else .option option value

/-- The arguments of the letters of a word, and the option that still needs a value. -/
def letters : List Char → List Argument × Option CommandOption
  | [] => ([], none)
  | c :: rest =>
    match interface.options.find? fun option => option.letter == some c with
    | none => ([.refused .rejected], none)
    | some option =>
      if option.usage = .valued then
        match rest with
        | [] => ([], some option)
        | '=' :: value => ([.option option (String.ofList value)], none)
        | value => ([.option option (String.ofList value)], none)
      else
        let (others, pending) := letters rest
        (argument option "" :: others, pending)

/-- The argument of a long option with the value that is joined to it, or the option that still
needs one. -/
def long (name : String) (joined : Option String) : Argument ⊕ CommandOption :=
  match interface.options.find? fun option => option.name == name with
  | none => .inl (.refused .rejected)
  | some option =>
    match joined with
    | some value =>
      if option.usage = .valued then .inl (.option option value) else .inl (.refused .rejected)
    | none => if option.usage = .valued then .inr option else .inl (argument option "")

/-- The name of a long option and the value joined to it. -/
def splitLong (cs : List Char) : String × Option String :=
  match cs.dropWhile (· != '=') with
  | [] => (String.ofList cs, none)
  | _ :: value => (String.ofList (cs.takeWhile (· != '=')), some (String.ofList value))

/-- The arguments of the words of a command line; `pending` is the option that the next word is the
value of. -/
def arguments : (pending : Option CommandOption) → List String → List Argument
  | none, [] => []
  | some _, [] => [.refused .rejected]
  | some option, word :: rest =>
    if isOptionWord word then [.refused .rejected] else .option option word :: arguments none rest
  | none, word :: rest =>
    if word = "--" then rest.map .operand
    else match word.toList with
      | '-' :: '-' :: cs =>
        let (name, joined) := splitLong cs
        match interface.long name joined with
        | .inl argument => argument :: arguments none rest
        | .inr option => arguments (some option) rest
      | '-' :: c :: cs =>
        let (found, pending) := interface.letters (c :: cs)
        found ++ arguments pending rest
      | _ => .operand word :: arguments none rest

/-- What is given with one more argument. -/
def accept (given : Given) : Argument → Except Refusal Given
  | .refused refusal => .error refusal
  | .operand text =>
    if text.isEmpty || interface.operands ≤ given.operands.length then .error .rejected
    else .ok { given with operands := given.operands ++ [text] }
  | .option option value =>
    if option.usage != .repeatable && given.count option.name != 0 then .error .rejected
    else if option.usage = .valued && !option.accepts value then .error .rejected
    else .ok { given with options := given.options ++ [(option.name, value)] }

/-- What a command line gives, all operands among it. -/
def read (words : List String) : Except Refusal Given := do
  let given ← (interface.arguments none words).foldlM interface.accept {}
  if given.operands.length = interface.operands then return given else throw .rejected

end Interface

end RenderMesh
