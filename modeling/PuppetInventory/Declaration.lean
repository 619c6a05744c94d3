/-!
Declared modules: a name, where the module comes from, and the version asked for.
-/

namespace PuppetInventory

inductive SourceKind where
  /-- The module registry; it has no location. -/
  | forge
  | git
  | svn
  /-- A repository named directly, as the `github` alias does. -/
  | directRepo
deriving Repr, DecidableEq, Inhabited

def SourceKind.label : SourceKind → String
  | .forge => "forge"
  | .git => "git"
  | .svn => "svn"
  | .directRepo => "repo"

inductive Version where
  /-- A version, reference, tag, commit, branch or revision. -/
  | exact (text : String)
  /-- Whatever is newest when the module is installed. -/
  | latest
deriving Repr, DecidableEq, Inhabited

def Version.render : Version → String
  | .exact text => text
  | .latest => "latest"

def Version.ofText? : Option String → Version
  | some text => .exact text
  | none => .latest

structure Declaration where
  name : String
  kind : SourceKind
  location : Option String
  version : Version
  /-- The line of the declaring call, from one. -/
  line : Nat
deriving Repr, DecidableEq, Inhabited

namespace Declaration

/-- Names read `owner-name`, however their author separated the two. -/
def normalName (name : String) : String :=
  String.ofList (name.toList.map fun c => if c = '/' then '-' else c)

theorem normalName_eq_map (name : String) :
    normalName name = name.map fun c => if c = '/' then '-' else c := by
  rw [normalName, ← String.toList_inj, String.toList_ofList, String.toList_map]

def named
    (name : String) (kind : SourceKind) (location : Option String) (version : Version)
    (line : Nat) : Declaration where
  name := normalName name
  kind := kind
  location := location
  version := version
  line := line

def isForge (declaration : Declaration) : Bool :=
  declaration.kind = .forge

/-- What a record names as the source: the location, or the registry for modules taken from it. -/
def source? (declaration : Declaration) : Option String :=
  match declaration.location with
  | some location => some location
  | none => if declaration.isForge then some "forge" else none

def render (declaration : Declaration) : String :=
  declaration.name ++ "@" ++ declaration.version.render ++ " (" ++ declaration.kind.label ++ ")" ++
    match declaration.location with
    | some location => " from " ++ location
    | none => ""

end Declaration

end PuppetInventory
