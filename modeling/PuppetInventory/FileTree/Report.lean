import PuppetInventory.Digest.Md5
import PuppetInventory.Export.Records
import PuppetInventory.FileTree.Discovery
import PuppetInventory.Puppetfile

/-!
Reading the Puppetfiles of a tree one after the other, and the records that they add up to. A file
that cannot be read is left out and disturbs no other.
-/

namespace PuppetInventory

/-- The digest that identical documents share. -/
def contentMd5 (text : String) : String :=
  (Digest.Md5.ofBytes text.toUTF8.toList).toHex

inductive FileError where
  | unreadable (error : AccessError)
  | notText (path : String)
deriving Repr, DecidableEq, Inhabited

def FileError.message : FileError → String
  | .unreadable error => "Failed to read file: " ++ error.message
  | .notText path => "Puppetfile is not valid UTF-8: " ++ path

/-- A document and what it declares. -/
structure ReadFile where
  text : String
  md5 : String
  outcome : Outcome

def FileSystem.readPuppetfile (system : FileSystem) (settings : Settings) (path : String) :
    Except FileError ReadFile :=
  match system.read path with
  | .error error => .error (.unreadable error)
  | .ok bytes =>
    match decodeText? bytes with
    | none => .error (.notText path)
    | some text => .ok ⟨text, contentMd5 text, .ofText settings text⟩

/-- A path with the name of its repository and the file that it leads to. -/
structure Candidate where
  path : String
  repository : Option String
  result : Except FileError ReadFile

def FileSystem.candidate (system : FileSystem) (settings : Settings) (path : String) :
    Candidate where
  path := path
  repository := system.directoryName? path
  result := system.readPuppetfile settings path

structure Summary where
  files : Nat
  skipped : Nat
  declarations : Nat
  diagnostics : Nat
deriving Repr, DecidableEq, Inhabited

namespace Summary

def zero : Summary where
  files := 0
  skipped := 0
  declarations := 0
  diagnostics := 0

def addOutcome (summary : Summary) (outcome : Outcome) : Summary :=
  { summary with
    files := summary.files + 1
    declarations := summary.declarations + outcome.declarations.length
    diagnostics := summary.diagnostics + outcome.diagnostics.length }

def addSkipped (summary : Summary) : Summary :=
  { summary with skipped := summary.skipped + 1 }

end Summary

/-- The exported text of a run and its totals. -/
structure Report where
  output : String
  summary : Summary
deriving Repr, DecidableEq, Inhabited

namespace Report

def start (format : Export.Format) : Report where
  output := Export.header format Export.declarationHeader
  summary := .zero

def add (format : Export.Format) (report : Report) (candidate : Candidate) : Report :=
  match candidate.result with
  | .error _ => { report with summary := report.summary.addSkipped }
  | .ok file =>
    let origin : Export.Origin := ⟨candidate.repository, some file.md5⟩
    { output := report.output ++ origin.rows format file.outcome.declarations
      summary := report.summary.addOutcome file.outcome }

def ofCandidates (format : Export.Format) (candidates : List Candidate) : Report :=
  candidates.foldl (add format) (start format)

end Report

end PuppetInventory
