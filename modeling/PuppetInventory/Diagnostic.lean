import PuppetInventory.Call
import PuppetInventory.Options
import PuppetInventory.Declaration

/-!
What is reported about a document: its causes, how serious each is, and how each is worded.
-/

namespace PuppetInventory

inductive Severity where
  /-- The whole document is unusable. -/
  | error
  /-- One statement is left out. -/
  | warning
deriving Repr, DecidableEq, Inhabited

def Severity.label : Severity → String
  | .error => "error"
  | .warning => "warning"

inductive Cause where
  /-- The document does not read. -/
  | invalidSyntax
  /-- A `mod` call whose name is no text literal, or empty. -/
  | nonStringName (argument : Option Value)
  /-- A `mod` call whose second argument has no known form. -/
  | unknownShape (name : String) (payload : String)
  /-- A `mod` call whose options name no source. -/
  | unknownOptions (name : String) (options : Options)
  | unrecognizedCall (call : Call)
  | malformedAlias (call : Call)

def Cause.severity : Cause → Severity
  | .invalidSyntax => .error
  | _ => .warning

structure Diagnostic where
  cause : Cause
  /-- The line that the diagnostic is about, from one. -/
  line : Nat

namespace Diagnostic

def severity (diagnostic : Diagnostic) : Severity :=
  diagnostic.cause.severity

def isError (diagnostic : Diagnostic) : Bool :=
  diagnostic.severity = .error

def message (diagnostic : Diagnostic) : String :=
  match diagnostic.cause with
  | .invalidSyntax => "Syntax error at line " ++ toString diagnostic.line
  | .nonStringName argument =>
    "Non string module name in mod(" ++ (argument.map Value.render).getD "" ++ ")"
  | .unknownShape name payload => "Unknown format: mod('" ++ name ++ "', " ++ payload ++ ")"
  | .unknownOptions name options =>
    "Unknown args format: mod('" ++ name ++ "', " ++ options.render ++ ")"
  | .unrecognizedCall call => "Unexpected invocation of " ++ call.render
  | .malformedAlias call => "Malformed github alias: " ++ call.render

def render (diagnostic : Diagnostic) : String :=
  diagnostic.severity.label ++ ":" ++ toString diagnostic.line ++ ": " ++ diagnostic.message

end Diagnostic

/-- All that one document yields. -/
structure Outcome where
  declarations : List Declaration
  diagnostics : List Diagnostic

namespace Outcome

def empty : Outcome where
  declarations := []
  diagnostics := []

/-- The outcome of a document that does not read. -/
def rejected (line : Nat) : Outcome where
  declarations := []
  diagnostics := [⟨.invalidSyntax, line⟩]

def isFatal (outcome : Outcome) : Bool :=
  outcome.diagnostics.any Diagnostic.isError

def warnings (outcome : Outcome) : List Diagnostic :=
  outcome.diagnostics.filter fun diagnostic => !diagnostic.isError

end Outcome

end PuppetInventory
