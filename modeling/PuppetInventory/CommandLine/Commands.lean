import PuppetInventory.CommandLine.Options
import PuppetInventory.Export.Format
import PuppetInventory.Puppetfile

/-!
The commands of the program and what their arguments ask for.
-/

namespace PuppetInventory.CommandLine

structure ParseRequest where
  path : String
  format : Export.Format
  settings : Settings
deriving Repr, DecidableEq, Inhabited

structure AttributeRequest where
  moduleName : String
  version : String
  dependencies : List String
  versionMarker : Bool
  format : Export.Format
  observations : String
deriving Repr, DecidableEq, Inhabited

inductive Command where
  | overview
  | help
  | programVersion
  | version
  | parse (request : ParseRequest)
  | attribute (request : AttributeRequest)
deriving Repr, DecidableEq, Inhabited

structure Invocation where
  /-- Whether details are logged. -/
  verbose : Bool
  command : Command
deriving Repr, DecidableEq, Inhabited

/-! Rules -/

def verboseRule : OptionRule where
  name := "verbose"
  short := some 'v'
  long := some "verbose"
  shown := "--verbose"
  value := .none

def helpRule : OptionRule where
  name := "help"
  short := some 'h'
  long := some "help"
  shown := "--help"
  value := .stop

def programVersionRule : OptionRule where
  name := "version"
  short := some 'V'
  long := some "version"
  shown := "--version"
  value := .stop

def checkFormat (name : String) : Option String :=
  match Export.Format.ofName? name with
  | some _ => none
  | none => some (Export.Format.unknownMessage name)

def formatRule : OptionRule where
  name := "format"
  short := some 'f'
  long := some "format"
  shown := "--format <FORMAT>"
  value := .checked checkFormat

def programRules : CommandRules where
  options := [verboseRule, helpRule, programVersionRule]
  positionals := []

def parseRules : CommandRules where
  options :=
    [formatRule, ⟨"no-github-alias", none, some "no-github-alias", "--no-github-alias", .none⟩,
      verboseRule, helpRule]
  positionals := [⟨"path", none, none, "[PATH]", .path⟩]

def attributeRules : CommandRules where
  options :=
    [⟨"module", some 'm', some "module", "--module <MODULE>", .text⟩,
      ⟨"release", none, some "version", "--version <VERSION>", .text⟩,
      ⟨"dependencies", some 'd', some "dependency", "--dependency <DEPENDENCIES>", .list⟩,
      ⟨"with-version-marker", none, some "with-version-marker", "--with-version-marker", .none⟩,
      formatRule, verboseRule, helpRule]
  positionals := [⟨"observations", none, none, "<OBSERVATIONS>", .path⟩]

def versionRules : CommandRules where
  options := [verboseRule, helpRule]
  positionals := []

/-! Commands -/

def formatOf (reading : Reading) : Export.Format :=
  ((reading.value? "format").bind Export.Format.ofName?).getD .json

def parseCommand (reading : Reading) : Command :=
  .parse
    { path := (reading.value? "path").getD "."
      format := formatOf reading
      settings := { githubAlias := !reading.isGiven "no-github-alias" } }

def attributeCommand (reading : Reading) : Except UsageError Command :=
  match reading.value? "module", reading.value? "release", reading.value? "observations" with
  | some moduleName, some version, some observations =>
    .ok
      (.attribute
        { moduleName := moduleName
          version := version
          dependencies := (reading.values? "dependencies").getD []
          versionMarker := reading.isGiven "with-version-marker"
          format := formatOf reading
          observations := observations })
  | _, _, _ => .error .missingArguments

def commandOf (verbose : Bool) (rules : CommandRules) (arguments : List String)
    (command : Reading → Except UsageError Command) : Except UsageError Invocation := do
  let reading ← takeArguments rules .start arguments
  let verbose := verbose || reading.isGiven "verbose"
  if reading.stopped.isSome then .ok ⟨verbose, .help⟩
  else .ok ⟨verbose, ← command reading⟩

/-- What names behind the word `help` ask for. No command has commands of its own. -/
def helpCommand (verbose : Bool) : List String → Except UsageError Invocation
  | [] => .ok ⟨verbose, .help⟩
  | name :: others =>
    if ["parse", "attribute", "version", "help"].contains name then
      match others with
      | [] => .ok ⟨verbose, .help⟩
      | other :: _ => .error (.unrecognizedCommand other)
    else .error (.unrecognizedCommand name)

def namedCommand? (verbose : Bool) (name : String) (arguments : List String) :
    Option (Except UsageError Invocation) :=
  if name = "parse" then
    some (commandOf verbose parseRules arguments fun reading => .ok (parseCommand reading))
  else if name = "attribute" then
    some (commandOf verbose attributeRules arguments attributeCommand)
  else if name = "version" then
    some (commandOf verbose versionRules arguments fun _ => .ok .version)
  else if name = "help" then some (helpCommand verbose arguments)
  else none

def notACommand (escaped : Bool) (argument : String) : UsageError :=
  if escaped && (namedCommand? false argument []).isSome then .unexpectedArgument argument
  else .unrecognizedCommand argument

/-- Reads the options of the program up to the name of a command. -/
def readInvocation : Reading → List String → Except UsageError Invocation
  | reading, [] =>
    .ok ⟨reading.isGiven "verbose", .overview⟩
  | reading, argument :: rest =>
    let named :=
      if reading.escaped then none
      else namedCommand? (reading.isGiven "verbose") argument rest
    match named with
    | some invocation => invocation
    | none => do
      let isOption := !reading.escaped && argument.toList.head? = some '-' && argument ≠ "-"
      if !isOption then .error (notACommand reading.escaped argument)
      else
        let reading ← takeArgument programRules reading argument
        match reading.stopped with
        | none => readInvocation reading rest
        | some name =>
          .ok ⟨reading.isGiven "verbose",
            if name = "version" then .programVersion else .help⟩

def invocationOf (arguments : List String) : Except UsageError Invocation :=
  readInvocation .start arguments

end PuppetInventory.CommandLine
