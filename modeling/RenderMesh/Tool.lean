import RenderMesh.CommandLine
import RenderMesh.Number.Notation
import RenderMesh.Tool.Command

/-!
# Tools

A tool reads its command line and does what the command says, or tells how to call it. Where the
command line is not accepted it does nothing and ends in code two.
-/

namespace RenderMesh

inductive Tool where
  | pack
  | compare
deriving DecidableEq, Repr

namespace Tool

def name : Tool → String
  | .pack => "pack_mesh"
  | .compare => "compare_packing"

def ofName? (text : String) : Option Tool := [pack, compare].find? fun tool => tool.name == text

/-- Options that both tools take. -/
def sharedOptions : List CommandOption :=
  [{ name := "verbose", letter := some 'v', usage := .repeatable },
   { name := "help", letter := some 'h', usage := .help }]

def interface : Tool → Interface
  | .pack =>
    { options :=
        { name := "output", letter := some 'o', usage := .valued, accepts := fun v => !v.isEmpty }
          :: { name := "report", usage := .switch } :: sharedOptions
      operands := 1 }
  | .compare =>
    { options :=
        { name := "tolerance", usage := .valued
          accepts := fun v => (Binary.ofText? v : Option Double).isSome } :: sharedOptions
      operands := 2 }

/-- The lines that tell how to call a tool. -/
def helpLines : Tool → List String
  | .pack =>
    ["Pack a decoded mesh fixture into welded render buffers",
     "",
     "Usage: pack_mesh [OPTIONS] <FIXTURE>",
     "",
     "Arguments:",
     "  <FIXTURE>  Mesh fixture to pack",
     "",
     "Options:",
     "  -o, --output <OUTPUT>  Where to write the packed mesh as JSON",
     "      --report           Print and save the repair counters",
     "  -v, --verbose...       Increase log verbosity (-v debug, -vv trace)",
     "  -h, --help             Print help"]
  | .compare =>
    ["Compare packed output against a reference JSON file",
     "",
     "Usage: compare_packing [OPTIONS] <FIXTURE> <REFERENCE>",
     "",
     "Arguments:",
     "  <FIXTURE>    Mesh fixture to pack",
     "  <REFERENCE>  Reference packed mesh",
     "",
     "Options:",
     "      --tolerance <TOLERANCE>  Allowed absolute difference for vertex floats "
       ++ s!"[default: {Compare.defaultTolerance.display}]",
     "  -v, --verbose...             Increase log verbosity (-v debug, -vv trace)",
     "  -h, --help                   Print help"]

/-- The level of events that a command line asks for (`init_logging`). -/
def level (given : Given) : Level :=
  match given.count "verbose" with
  | 0 => .info
  | 1 => .debug
  | _ => .trace

/-- The work of a tool on what it is given. -/
def work : Tool → Given → Job Nat
  | .pack, given =>
    PackCommand.job
      { fixture := given.operands.headD ""
        output := given.value? "output"
        report := given.count "report" != 0 }
  | .compare, given =>
    CompareCommand.job
      { fixture := given.operands.headD ""
        reference := given.operands.getLastD ""
        tolerance :=
          ((given.value? "tolerance").bind Binary.ofText?).getD Compare.defaultTolerance }

/-- The job of a command line, ending in the code of the tool. -/
def job (tool : Tool) (words : List String) : Job Nat :=
  match tool.interface.read words with
  | .ok given => (tool.work given).restrict (level given)
  | .error .help => do
    Job.emitAll (tool.helpLines.map .line)
    return 0
  | .error .rejected => .done 2

end Tool

end RenderMesh
