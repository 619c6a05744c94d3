import PuppetInventory.Diagnostic
import PuppetInventory.Syntax.Document

/-!
The meaning of calls as statements about modules: what a `mod` call declares, what the `github`
alias declares, and what a whole tree of calls and a whole Puppetfile add up to.
-/

namespace PuppetInventory

structure Settings where
  /-- Whether `github(name, version, options)` declares a module. -/
  githubAlias : Bool := true
deriving Repr, DecidableEq, Inhabited

namespace Declaration

/-- The options that name the version of a git source, the strongest first. -/
def gitVersionKeys : List String := ["ref", "tag", "commit", "branch"]

/-- The options that name the version of a subversion source, the strongest first. -/
def svnVersionKeys : List String := ["rev", "revision"]

/-- The option that the `github` alias adds to its own. -/
def aliasMarker : String := "boxen"

/-- `git` is stronger than `svn`, and both are stronger than a repository named directly. -/
def ofOptions? (name : String) (options : Options) (line : Nat) : Option Declaration :=
  match options.get? "git" with
  | some git =>
    some (.named name .git git.plain? (.ofText? (options.firstPlain? gitVersionKeys)) line)
  | none =>
    match options.get? "svn" with
    | some svn =>
      some (.named name .svn svn.plain? (.ofText? (options.firstPlain? svnVersionKeys)) line)
    | none =>
      if options.contains aliasMarker || options.contains "repo" then
        some
          (.named name .directRepo (options.firstPlain? ["repo"])
            (.ofText? (options.firstPlain? ["version"])) line)
      else
        none

def ofPayload (name : String) (payload : Payload) (line : Nat) : Except Diagnostic Declaration :=
  match payload with
  | .missing => .ok (.named name .forge none .latest line)
  | .version text => .ok (.named name .forge none (.exact text) line)
  | .options given =>
    match ofOptions? name given line with
    | some declaration => .ok declaration
    | none => .error ⟨.unknownOptions name given, line⟩
  | .unsupported text => .error ⟨.unknownShape name text, line⟩

end Declaration

namespace Call

def moduleDeclaration (call : Call) : Except Diagnostic Declaration :=
  match call.arguments.head? with
  | some (.text name) =>
    if name = "" then .error ⟨.nonStringName (some (.text name)), call.line⟩
    else Declaration.ofPayload name (.ofArgument call.arguments[1]?) call.line
  | argument => .error ⟨.nonStringName argument, call.line⟩

/-- The version that a `github` call asks for, when its second argument can be one. -/
def aliasVersion? : Option Value → Option OptionValue
  | none => some .absent
  | some .absent => some .absent
  | some (.text text) => some (.text text)
  | some _ => none

/-- The options that a `github` call gives, when its third argument can hold them. -/
def aliasOptions? : Option Value → Option Options
  | none => some .empty
  | some (.hash pairs) => some (.ofPairs pairs)
  | some _ => none

/-- The alias stands for a `mod` call whose options are marked and end with the version. -/
def aliasDeclaration (call : Call) : Except Diagnostic Declaration :=
  match call.arguments.head?, aliasVersion? call.arguments[1]?,
    aliasOptions? call.arguments[2]? with
  | some (.text name), some version, some options =>
    if name = "" then .error ⟨.malformedAlias call, call.line⟩
    else
      let options := options.insert Declaration.aliasMarker (.text Declaration.aliasMarker)
      Declaration.ofPayload name (.options (options.insert "version" version)) call.line
  | _, _, _ => .error ⟨.malformedAlias call, call.line⟩

/-- What a call says by itself; `none` for the calls that only set up the environment. -/
def statement (settings : Settings) (call : Call) : Option (Except Diagnostic Declaration) :=
  if call.name = "mod" then some call.moduleDeclaration
  else if call.name = "forge" ∨ call.name = "moduledir" then none
  else if call.name = "github" ∧ settings.githubAlias then some call.aliasDeclaration
  else some (.error ⟨.unrecognizedCall call, call.line⟩)

end Call

namespace Outcome

def record (outcome : Outcome) : Option (Except Diagnostic Declaration) → Outcome
  | none => outcome
  | some (.ok declaration) =>
    { outcome with declarations := outcome.declarations ++ [declaration] }
  | some (.error diagnostic) =>
    { outcome with diagnostics := outcome.diagnostics ++ [diagnostic] }

mutual

/-- Records a call and then, in order, the calls inside it. -/
def visit (settings : Settings) (outcome : Outcome) : Call → Outcome
  | ⟨name, arguments, line, children⟩ =>
    visitAll settings
      (outcome.record (Call.statement settings ⟨name, arguments, line, children⟩)) children

def visitAll (settings : Settings) (outcome : Outcome) : List Call → Outcome
  | [] => outcome
  | call :: rest => visitAll settings (visit settings outcome call) rest

end

def ofCalls (settings : Settings) (calls : List Call) : Outcome :=
  visitAll settings empty calls

/-- A text that does not read declares nothing. -/
def ofTextBy (parser : Syntax.Parser) (settings : Settings) (text : String) : Outcome :=
  match Syntax.Document.callsBy parser text with
  | .error line => .rejected line
  | .ok calls => ofCalls settings calls

def ofText (settings : Settings) (text : String) : Outcome :=
  ofTextBy Syntax.Document.tree settings text

end Outcome

end PuppetInventory
