import DotGraph.CommandLine

/-!
# The program

Reads the files that an invocation names into a file tree, runs it there, writes back the files
that changed and prints both outputs. No layout program is launched from here: each is reported
as one that is not there.
-/

namespace DotGraph.CommandLine

/-- The paths that an invocation reads or writes. -/
def Invocation.paths (i : Invocation) : List String :=
  i.settings.getD Settings.fileName :: match i.job with
    | .format files _ _ | .check files => files
    | .draw file output _ _ shapeFiles => file :: output :: shapeFiles
    | .view file _ => [file]

/-- The paths of everything on the way along a path, the path itself last. -/
def waypoints (path : String) : List String :=
  let start := if Path.isAbsolute path then "/" else ""
  let segments := Path.segments path
  (List.range segments.length).map fun n =>
    start ++ String.intercalate "/" (segments.take (n + 1))

/-- Where a place is in the file system. -/
def placePath (place : Place) : String :=
  match place with
  | "/" :: place => "/" ++ String.intercalate "/" place
  | place => String.intercalate "/" place

/-- Add what is at a path to a tree. -/
def snapshot (tree : FileTree) (path : String) : IO FileTree := do
  match tree.locate path with
  | .error _ => return tree
  | .ok place =>
    if tree.isDirectory place then return tree
    try
      let found ← IO.FS.realPath path
      if ← found.isDir then return tree.put place .directory
      return tree.put place (.file (← IO.FS.readBinFile path).toList)
    catch _ => return tree

/-- Write the files of a tree that differ from those of an earlier one. -/
def writeBack (earlier later : FileTree) : IO Unit :=
  later.entries.forM fun (place, entry) => do
    match entry with
    | .file content =>
      if earlier.find? place ≠ some entry then
        IO.FS.writeBinFile (placePath place) ⟨content.toArray⟩
    | .directory => pure ()

/-- Launch nothing: no program is known. -/
def noPrograms (tree : FileTree) : Launcher := fun executable _ _ _ =>
  .error (.ofUnknown tree executable)

def perform (args : List String) : IO UInt32 := do
  let paths := match Invocation.ofArguments args with
    | .ok i => i.paths.flatMap waypoints
    | .error _ => []
  let tree ← paths.foldlM snapshot {}
  let outcome := run (noPrograms tree) args tree
  writeBack tree outcome.tree
  (← IO.getStdout).write ⟨outcome.output.toArray⟩
  (← IO.getStderr).write ⟨outcome.diagnostics.toArray⟩
  return outcome.exitCode.toUInt32

end DotGraph.CommandLine

def main (args : List String) : IO UInt32 := DotGraph.CommandLine.perform args
