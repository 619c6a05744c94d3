import PuppetInventory.FileTree.Basic

/-!
Looking up paths from a working directory, and reading files.
-/

namespace PuppetInventory

/-- Why a path cannot be read. -/
inductive AccessError where
  | notFound
  | notADirectory
  | isADirectory
  | nulInName
  | nameTooLong
deriving Repr, DecidableEq, Inhabited

def AccessError.message : AccessError → String
  | .notFound => "No such file or directory (os error 2)"
  | .notADirectory => "Not a directory (os error 20)"
  | .isADirectory => "Is a directory (os error 21)"
  | .nulInName => "file name contained an unexpected NUL byte"
  | .nameTooLong => "File name too long (os error 36)"

/-- The most bytes that a name in a directory has. -/
def longestName : Nat := 255

def longestPath : Nat := 4095

/-- A tree of files and the names that lead to its working directory. -/
structure FileSystem where
  root : FileTree
  working : List String

namespace FileSystem

/-- A place in the tree: the names that lead to it, the last one first, with the tree of each. -/
abbrev Trail := List (String × FileTree)

def here (system : FileSystem) (trail : Trail) : FileTree :=
  match trail with
  | [] => system.root
  | (_, tree) :: _ => tree

def follow (system : FileSystem) : Trail → List String → Except AccessError Trail
  | trail, [] => .ok trail
  | trail, name :: path =>
    if !(system.here trail).isDirectory then .error .notADirectory
    else if name = "." then follow system trail path
    else if name = ".." then follow system (trail.drop 1) path
    else if longestName < name.utf8ByteSize then .error .nameTooLong
    else
      match (system.here trail).child? name with
      | none => .error .notFound
      | some tree => follow system ((name, tree) :: trail) path

/-- The place that a path leads to. A path that ends with a slash leads to a directory only. -/
def resolve (system : FileSystem) (path : String) : Except AccessError Trail := do
  if path.toList.contains (Char.ofNat 0) then .error .nulInName
  else if path = "" then .error .notFound
  else if longestPath < path.utf8ByteSize then .error .nameTooLong
  else
    let start ← follow system [] (if path.toList.head? = some '/' then [] else system.working)
    let trail ← follow system start (pathComponents path)
    if path.toList.getLast? = some '/' && !(system.here trail).isDirectory then
      .error .notADirectory
    else .ok trail

def read (system : FileSystem) (path : String) : Except AccessError (List UInt8) := do
  match system.here (← system.resolve path) with
  | .file content => .ok content
  | .directory _ => .error .isADirectory

def directoryName? (system : FileSystem) (path : String) : Option String :=
  match system.resolve path with
  | .ok (_ :: (name, _) :: _) => some name
  | _ => none

end FileSystem

/-- The text that bytes encode, if they encode one. -/
def decodeText? (bytes : List UInt8) : Option String :=
  String.fromUTF8? ⟨bytes.toArray⟩

/-- The text that a path leads to, if a file can be read there and holds text. -/
def FileSystem.textAt? (system : FileSystem) (path : String) : Option String :=
  (system.read path).toOption.bind decodeText?

/-- The path of the directory that holds a path's file, as it is written. -/
def parentPath (path : String) : String :=
  let upper := path.toList.reverse.dropWhile (· ≠ '/')
  String.ofList (trim upper).reverse
where
  /-- Drops slashes and components that stay in place from the end of a reversed path. -/
  trim : List Char → List Char
    | ['/'] => ['/']
    | '/' :: rest => trim rest
    | '.' :: '/' :: rest => trim ('/' :: rest)
    | path => path

end PuppetInventory
