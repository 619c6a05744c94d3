import PuppetInventory.CommandLine.Commands
import PuppetInventory.CommandLine.Log
import PuppetInventory.Usage.Table

/-!
Running a command over a tree of files: what it writes, what it logs, and how it ends.
-/

namespace PuppetInventory.CommandLine

structure Result where
  exitCode : Nat
  output : String
  /-- The text for the error stream, with log entries as `LogEntry.render` gives them: without time
  stamps, padding and colours, and chosen by the command line alone, not by the environment. -/
  errors : String
deriving Repr, DecidableEq, Inhabited

namespace Result

def success (output : String) (entries : List LogEntry) : Result where
  exitCode := 0
  output := output
  errors := String.join (entries.map fun entry => entry.render ++ "\n")

/-- Lines behind the first one of a text are indented. -/
def indentLines (indent : String) (text : String) : String :=
  String.ofList (text.toList.flatMap fun c => if c = '\n' then c :: indent.toList else [c])

/-- The causes of a failure; several are numbered. -/
def renderCauses : List String → String
  | [] => ""
  | [cause] => "\n\nCaused by:\n    " ++ indentLines "    " cause
  | causes =>
    "\n\nCaused by:" ++
      String.join (causes.zipIdx.map fun cause =>
        "\n    " ++ toString cause.2 ++ ": " ++ indentLines "       " cause.1)

def failure (message : String) (causes : List String) : Result where
  exitCode := 1
  output := ""
  errors := "Error: " ++ message ++ renderCauses causes ++ "\n"

def misuse (error : UsageError) : Result where
  exitCode := 2
  output := ""
  errors := error.message ++ "\n"

end Result

/-- The entries that are logged; details only on request. -/
def shownEntries (verbose : Bool) (entries : List LogEntry) : List LogEntry :=
  entries.filter fun entry => verbose || entry.level ≠ .debug

def runParse (system : FileSystem) (verbose : Bool) (request : ParseRequest) : Result :=
  let paths := system.puppetfiles request.path
  if paths.isEmpty then .failure ("No Puppetfile found under " ++ request.path) []
  else
    let candidates := paths.map (system.candidate request.settings)
    let report := Report.ofCandidates request.format candidates
    .success report.output
      (shownEntries verbose
        (foundEntry paths.length request.path :: candidates.flatMap candidateEntries ++
          [summaryEntry report.summary]))

/-- Why a usage table could not be loaded. -/
inductive LoadError where
  | unreadable (error : AccessError)
  | notText
  | table (error : Usage.TableError)
deriving Repr, DecidableEq, Inhabited

def LoadError.causes : LoadError → List String
  | .unreadable error => ["Failed to read file: " ++ error.message, error.message]
  | .notText =>
    ["Failed to read file: stream did not contain valid UTF-8",
      "stream did not contain valid UTF-8"]
  | .table error => error.chain

def loadTable (system : FileSystem) (path : String) :
    Except LoadError (List Usage.Observation) :=
  match system.read path with
  | .error error => .error (.unreadable error)
  | .ok bytes =>
    match decodeText? bytes with
    | none => .error .notText
    | some text =>
      match Usage.Table.read text with
      | .error error => .error (.table error)
      | .ok observations => .ok observations

def runAttribute (system : FileSystem) (request : AttributeRequest) : Result :=
  match loadTable system request.observations with
  | .error error =>
    .failure ("Failed to load usage table " ++ request.observations) error.causes
  | .ok observations =>
    let rows :=
      Usage.attributeAll request.moduleName request.version request.dependencies observations
    let marker :=
      if request.versionMarker then [Usage.versionMarker request.moduleName request.version]
      else []
    .success (Export.usage request.format (rows ++ marker))
      [attributionEntry request.moduleName request.version observations.length
        (rows.countP Usage.Row.isAttributed)]

def overview : String :=
  "modscope - Puppetfile dependency parser and usage attribution\n" ++
    "Run 'modscope parse <path>' to list declared modules\n" ++
    "Run 'modscope --help' for more information\n"

def helpText : String :=
  "Puppetfile dependency parser and module usage attribution\n\n" ++
    "Usage: modscope [OPTIONS] [COMMAND]\n\n" ++
    "Commands:\n" ++
    "  parse      Parse module declarations from Puppetfiles\n" ++
    "  attribute  Attribute observed element usage to declared dependencies\n" ++
    "  version    Show version information\n" ++
    "  help       Print this message or the help of the given subcommand(s)\n\n" ++
    "Options:\n" ++
    "  -v, --verbose  Log debug output to stderr\n" ++
    "  -h, --help     Print help\n" ++
    "  -V, --version  Print version\n"

def runCommand (system : FileSystem) (invocation : Invocation) : Result :=
  match invocation.command with
  | .overview => .success overview []
  | .help => .success helpText []
  | .programVersion => .success "modscope 0.1.0\n" []
  | .version => .success "modscope v0.1.0\n" []
  | .parse request => runParse system invocation.verbose request
  | .attribute request => runAttribute system request

def run (system : FileSystem) (arguments : List String) : Result :=
  match invocationOf arguments with
  | .error error => .misuse error
  | .ok invocation => runCommand system invocation

end PuppetInventory.CommandLine
