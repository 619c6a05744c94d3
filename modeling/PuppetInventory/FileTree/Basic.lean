/-!
Trees of directories and regular files, and the paths that lead through them.
-/

namespace PuppetInventory

inductive FileTree where
  | file (content : List UInt8)
  | directory (entries : List (String × FileTree))
deriving Inhabited

namespace FileTree

def empty : FileTree :=
  .directory []

def entries : FileTree → List (String × FileTree)
  | .file _ => []
  | .directory entries => entries

def isDirectory : FileTree → Bool
  | .file _ => false
  | .directory _ => true

def child? (tree : FileTree) (name : String) : Option FileTree :=
  tree.entries.lookup name

/-- Gives a name another tree, at its place or behind all others. -/
def setEntry (name : String) (tree : FileTree) :
    List (String × FileTree) → List (String × FileTree)
  | [] => [(name, tree)]
  | (other, present) :: rest =>
    if other = name then (name, tree) :: rest else (other, present) :: setEntry name tree rest

/-- Puts a tree at the end of a path of names. Directories on the way are made where they are
missing; a directory that is already there stays as it is. -/
def insert (added : FileTree) : List String → FileTree → FileTree
  | [], present =>
    match added, present with
    | .directory [], .directory entries => .directory entries
    | _, _ => added
  | name :: path, present =>
    .directory
      (setEntry name (insert added path ((present.child? name).getD empty)) present.entries)

end FileTree

/-- The parts of a path between its slashes, empty ones included. -/
def pathParts : List Char → List (List Char)
  | [] => [[]]
  | c :: rest =>
    match pathParts rest with
    | [] => [[c]]
    | part :: others => if c = '/' then [] :: part :: others else (c :: part) :: others

/-- The components of a path as written, without empty ones. -/
def pathComponents (path : String) : List String :=
  ((pathParts path.toList).filter fun part => !part.isEmpty).map String.ofList

end PuppetInventory
