import PuppetInventory.CommandLine.Run

/-!
The program: it loads the files that a command asks for, runs the command over them, and writes what
comes out of it.
-/

namespace PuppetInventory

/-- The place that names lead to from the root of the machine's files. -/
def placeOf (names : List String) : IO.FS.DirEntry :=
  ⟨"/", String.intercalate "/" names⟩

/-- A directory with all Puppetfiles below it. Links are not followed, and what cannot be read is
left out. -/
partial def loadDirectory (place : IO.FS.DirEntry) : IO FileTree := do
  let mut entries := []
  for entry in ← (try place.path.readDir catch _ => pure #[]) do
    let status ← entry.path.symlinkMetadata
    match status.type with
    | .dir =>
      unless FileTree.isIgnored entry.fileName do
        entries := (entry.fileName, ← loadDirectory entry) :: entries
    | .file =>
      if entry.fileName = FileTree.puppetfileName then
        entries := (entry.fileName, .file (← IO.FS.readBinFile entry.path).toList) :: entries
    | _ => pure ()
  return .directory entries

/-- Puts what a path leads to into an empty tree, with the directories on its way. They come last:
what lies above them may have been loaded without them. -/
def loadAlong (names : List String) (path : List String) : IO FileTree := do
  let place := placeOf names
  if ← place.path.isDir then
    match path with
    | [] => return FileTree.insert (← loadDirectory place) names .empty
    | name :: path =>
      let next :=
        if name = "." then names else if name = ".." then names.dropLast else names ++ [name]
      return FileTree.insert .empty names (← loadAlong next path)
  else if ← place.path.pathExists then
    return FileTree.insert (.file (← IO.FS.readBinFile place.path).toList) names .empty
  else
    return .empty

def CommandLine.Invocation.path? (invocation : Invocation) : Option String :=
  match invocation.command with
  | .parse request => some request.path
  | .attribute request => some request.observations
  | _ => none

/-- The part of the machine's files that a path leads to, seen from the working directory. -/
def loadFileSystem (path : String) : IO FileSystem := do
  let working := pathComponents (← IO.currentDir).toString
  let start := if path.startsWith "/" then [] else working
  let tree ← loadAlong start (pathComponents path)
  return ⟨FileTree.insert .empty working tree, working⟩

def loadRequested (arguments : List String) : IO FileSystem :=
  match CommandLine.invocationOf arguments with
  | .error _ => return ⟨.empty, []⟩
  | .ok invocation =>
    match invocation.path? with
    | none => return ⟨.empty, []⟩
    | some path => loadFileSystem path

end PuppetInventory

def main (arguments : List String) : IO UInt32 := do
  let system ← PuppetInventory.loadRequested arguments
  let result := PuppetInventory.CommandLine.run system arguments
  IO.print result.output
  IO.eprint result.errors
  return result.exitCode.toUInt32
