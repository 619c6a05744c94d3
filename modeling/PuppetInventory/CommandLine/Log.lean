import PuppetInventory.FileTree.Report
import PuppetInventory.Text.Quoted

/-!
What a run logs, and the part of each line that hangs on the run: the level, the message and the
values. The time, the colours and the padding of the level are left out, and so is the choice of
entries by the environment.
-/

namespace PuppetInventory.CommandLine

inductive Level where
  | debug
  | info
  | warning
  | error
deriving Repr, DecidableEq, Inhabited

def Level.label : Level → String
  | .debug => "DEBUG"
  | .info => "INFO"
  | .warning => "WARN"
  | .error => "ERROR"

/-- A message with named values. -/
structure LogEntry where
  level : Level
  message : String
  fields : List (String × String)
deriving Repr, DecidableEq, Inhabited

/-- Characters that could steer a terminal are spelled out in messages. -/
def spellControl (c : Char) : List Char :=
  if c.toNat = 27 then "\\x1b".toList
  else if c.toNat = 7 then "\\x07".toList
  else if c.toNat = 8 then "\\x08".toList
  else if c.toNat = 12 then "\\x0c".toList
  else if c.toNat = 127 then "\\x7f".toList
  else if 128 ≤ c.toNat ∧ c.toNat < 160 then
    Text.codePoint c
  else [c]

/-- The written form of an entry, from its level on; a message of several lines takes several lines.
The time stamp in front of the level, its padding to five characters and its colour are left out. -/
def LogEntry.render (entry : LogEntry) : String :=
  entry.level.label ++ " " ++ String.ofList (entry.message.toList.flatMap spellControl) ++
    String.join (entry.fields.map fun field => " " ++ field.1 ++ "=" ++ field.2)

/-! Entries -/

def causeLabel : Cause → String
  | .invalidSyntax => "SyntaxError"
  | .nonStringName _ => "NonStringModuleName"
  | .unknownShape _ _ => "UnknownDeclarationShape"
  | .unknownOptions _ _ => "UnknownDeclarationShape"
  | .unrecognizedCall _ => "UnrecognizedInvocation"
  | .malformedAlias _ => "MalformedAlias"

def foundEntry (count : Nat) (path : String) : LogEntry where
  level := .debug
  message := "found Puppetfiles"
  fields := [("count", toString count), ("root", path)]

def skippedEntry (path : String) (error : FileError) : LogEntry where
  level := .warning
  message := "skipping Puppetfile"
  fields := [("path", path), ("error", error.message)]

def diagnosticEntry (path : String) (diagnostic : Diagnostic) : LogEntry where
  level := if diagnostic.isError then .error else .warning
  message := diagnostic.message
  fields :=
    [("path", path), ("line", toString diagnostic.line), ("kind", causeLabel diagnostic.cause)]

/-- What is told about a document that was read: how many calls it holds, or why it is rejected. -/
def readEntry (file : ReadFile) : LogEntry :=
  match Syntax.Document.calls file.text with
  | .error line =>
    { level := .debug
      message := "rejecting Puppetfile"
      fields := [("error", Diagnostic.message ⟨.invalidSyntax, line⟩)] }
  | .ok calls =>
    { level := .debug
      message := "parsed Puppetfile"
      fields :=
        [("calls", toString (Call.countAll calls)),
          ("declarations", toString file.outcome.declarations.length),
          ("diagnostics", toString file.outcome.diagnostics.length)] }

def candidateEntries (candidate : Candidate) : List LogEntry :=
  match candidate.result with
  | .error error => [skippedEntry candidate.path error]
  | .ok file =>
    readEntry file :: file.outcome.diagnostics.map (diagnosticEntry candidate.path)

def summaryEntry (summary : Summary) : LogEntry where
  level := .info
  message := "parse complete"
  fields :=
    [("files", toString summary.files), ("skipped", toString summary.skipped),
      ("declarations", toString summary.declarations),
      ("diagnostics", toString summary.diagnostics)]

def attributionEntry (moduleName version : String) (observations attributed : Nat) : LogEntry where
  level := .info
  message := "attribution complete"
  fields :=
    [("module", Text.quoted moduleName), ("version", Text.quoted version),
      ("observations", toString observations), ("attributed", toString attributed)]

end PuppetInventory.CommandLine
