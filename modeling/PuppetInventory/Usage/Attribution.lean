/-!
Attribution of observed elements to dependencies, by naming conventions alone: `mysql::password` and
`mysql_password` both belong to the dependency whose slug ends in `mysql`.
-/

namespace PuppetInventory.Usage

structure Observation where
  /-- The plural kind of the element, such as `classes`. -/
  kind : String
  element : String
  count : Nat
deriving Repr, DecidableEq, Inhabited

structure Row where
  moduleName : String
  version : String
  /-- The slug of the dependency that is taken to provide the element. -/
  source : Option String
  /-- The singular kind of the element, such as `class`. -/
  kind : String
  element : String
  count : Nat
deriving Repr, DecidableEq, Inhabited

def Row.isAttributed (row : Row) : Bool :=
  row.source.isSome

/-- `ses` loses its last two letters, any other final `s` is dropped. -/
def singular (kind : String) : String :=
  match kind.toList.reverse with
  | 's' :: 'e' :: 's' :: rest => String.ofList ('s' :: rest).reverse
  | 's' :: rest => String.ofList rest.reverse
  | _ => kind

/-- The part of an `owner-name` slug behind its last hyphen. -/
def bareName (slug : String) : String :=
  String.ofList (slug.toList.reverse.takeWhile (· ≠ '-')).reverse

/-- The characters before the first `::`, if there is one. -/
def beforeSeparator? : List Char → Option (List Char)
  | ':' :: ':' :: _ => some []
  | c :: rest => (beforeSeparator? rest).map (c :: ·)
  | [] => none

/-- The name of the dependency that an element points at: its namespace, or else what stands before
its first underscore. -/
def ownerName (element : String) : String :=
  match beforeSeparator? element.toList with
  | some namespaceName => String.ofList namespaceName
  | none => String.ofList (element.toList.takeWhile (· ≠ '_'))

/-- The first dependency of a given bare name. -/
def findSource? (dependencies : List String) (name : String) : Option String :=
  dependencies.find? fun dependency => bareName dependency = name

/-- An element named after the module itself is looked up whole. -/
def lookupName (moduleName element : String) : String :=
  if element = bareName moduleName then element else ownerName element

def rowOf
    (moduleName version : String) (dependencies : List String) (observation : Observation) :
    Row where
  moduleName := moduleName
  version := version
  source := findSource? dependencies (lookupName moduleName observation.element)
  kind := singular observation.kind
  element := observation.element
  count := observation.count

def attributeAll
    (moduleName version : String) (dependencies : List String)
    (observations : List Observation) : List Row :=
  observations.map (rowOf moduleName version dependencies)

/-- The row that records that a version of a module was itemized. -/
def versionMarker (moduleName version : String) : Row where
  moduleName := moduleName
  version := version
  source := none
  kind := "admin"
  element := "version"
  count := 0

end PuppetInventory.Usage
