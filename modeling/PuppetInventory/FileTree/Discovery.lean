import PuppetInventory.FileTree.Access

/-!
Finding the Puppetfiles below a directory: a walk over the tree, from which the Puppetfiles are
picked.
-/

namespace PuppetInventory

/-- A place that a walk comes to: the names that lead there from the start of the walk, none for the
start itself, and what stands there. -/
structure Visit where
  names : List String
  tree : FileTree
deriving Inhabited

/-- Visits the places below a tree, its own included, that a test lets pass. -/
abbrev Walker := (Visit → Bool) → FileTree → List Visit

namespace FileTree

def puppetfileName : String := "Puppetfile"

/-- Directories that hold other people's files, or none to look at. -/
def isIgnored (name : String) : Bool :=
  name = ".git" || name = "vendor" || name = "modules" || name = "target"

def sortByName {α : Type} (found : List (String × α)) : List (String × α) :=
  found.mergeSort fun first second => first.1 ≤ second.1

end FileTree

namespace Visit

def start (tree : FileTree) : Visit where
  names := []
  tree := tree

/-- The same place, as a walk comes to it that starts one directory above. -/
def under (name : String) (visit : Visit) : Visit :=
  { visit with names := name :: visit.names }

/-- An ignored directory. The start of a walk is none, whatever its name. -/
def isIgnored (visit : Visit) : Bool :=
  visit.tree.isDirectory && visit.names.getLast?.any FileTree.isIgnored

def isPuppetfile (visit : Visit) : Bool :=
  !visit.tree.isDirectory && visit.names.getLast? = some FileTree.puppetfileName

end Visit

namespace FileTree

mutual

/-- Walks a tree, each directory before what it holds and siblings in the order of their names. What
lies below a place that the test stops at is not visited either. -/
def walk (keep : Visit → Bool) : FileTree → List Visit
  | .file content => if keep (.start (.file content)) then [.start (.file content)] else []
  | .directory entries =>
    if keep (.start (.directory entries)) then
      .start (.directory entries) :: (sortByName (walkEntries keep entries)).flatMap (·.2)
    else []

/-- The walks over the entries of a directory, each with the name of its entry. -/
def walkEntries (keep : Visit → Bool) : List (String × FileTree) → List (String × List Visit)
  | [] => []
  | (name, tree) :: rest =>
    (name, (walk (keep ∘ Visit.under name) tree).map (Visit.under name)) :: walkEntries keep rest

end

/-- The Puppetfiles below a tree in the order in which a walk comes to them. -/
def puppetfiles (walker : Walker) (tree : FileTree) : List (List String) :=
  ((walker (!·.isIgnored) tree).filter Visit.isPuppetfile).map Visit.names

end FileTree

def joinPath (path : String) (names : List String) : String :=
  let lead := if path = "" || path.toList.getLast? = some '/' then path else path ++ "/"
  lead ++ String.intercalate "/" names

/-- Paths are ordered component by component. -/
def pathLe (first second : String) : Bool :=
  !(pathComponents second < pathComponents first : Bool)

namespace FileSystem

/-- The Puppetfiles that a path stands for, in the order of their paths: itself, if it is a file of
any name, or all that are found below it. -/
def puppetfilesBy (walker : Walker) (system : FileSystem) (path : String) : List String :=
  match system.resolve path with
  | .error _ => []
  | .ok trail =>
    match system.here trail with
    | .file _ => [path]
    | tree => ((tree.puppetfiles walker).map (joinPath path)).mergeSort pathLe

def puppetfiles (system : FileSystem) (path : String) : List String :=
  system.puppetfilesBy FileTree.walk path

end FileSystem

end PuppetInventory
