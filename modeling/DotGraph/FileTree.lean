import DotGraph.Error
import DotGraph.Keyed
import DotGraph.Text.Utf8

/-!
# File trees

The files and directories below a working directory, as a value. A place is the list of names on
the way to it. Paths are texts; a path is followed name by name, through directories only.
-/

namespace DotGraph

/-- A place below the working directory. Above it, `..` stands for each level. Absolute places
start with `/`. -/
abbrev Place := List String

namespace Path

/-- The segments of a path, those of single dots included. -/
def segments (path : String) : List String :=
  ((Text.split '/' path.toList).filter (!·.isEmpty)).map String.ofList

def isAbsolute (path : String) : Bool := path.toList.head? == some '/'

def hasTrailingSlash (path : String) : Bool := path.toList.getLast? == some '/'

/-- The segments that tell paths apart: a single dot counts only at the start of a relative
path. -/
def components (path : String) : List String :=
  match segments path with
  | [] => []
  | first :: rest =>
    let rest := rest.filter (· ≠ ".")
    if first = "." && isAbsolute path then rest else first :: rest

/-- Whether two paths are the same as written. -/
def same (p q : String) : Bool :=
  isAbsolute p == isAbsolute q && components p == components q

/-- The name that a path ends in. -/
def fileName? (path : String) : Option String :=
  match (components path).getLast? with
  | some "." => none
  | some ".." => none
  | name => name

end Path

inductive Entry
  | file (content : Octets)
  | directory
deriving DecidableEq

structure FileTree where
  entries : List (Place × Entry) := []

namespace FileTree

def find? (tree : FileTree) (place : Place) : Option Entry := Keyed.find? place tree.entries

def put (tree : FileTree) (place : Place) (entry : Entry) : FileTree :=
  ⟨Keyed.put place entry tree.entries⟩

/-- The working directory, the ones above it and the root are always there. -/
def isOpen (place : Place) : Bool := place == ["/"] || place.all (· == "..")

def isDirectory (tree : FileTree) (place : Place) : Bool :=
  isOpen place || tree.find? place == some .directory

/-- Add a file with the directories on the way to it. -/
def add (tree : FileTree) (place : Place) (content : Octets) : FileTree :=
  let above := (List.range place.length).map (place.take ·)
  (above.foldl (fun t p => if t.isDirectory p then t else t.put p .directory) tree).put place
    (.file content)

/-- The place above. -/
def parent (place : Place) : Place :=
  if place = ["/"] then place
  else if place.all (· == "..") then place ++ [".."]
  else place.dropLast

/-- The longest name that a directory can hold, in octets. -/
def nameLimit : Nat := 255

/-- The longest path, in octets. -/
def pathLimit : Nat := 4095

/-- Follow one segment from a place, which has to be a directory. -/
def step (tree : FileTree) (place : Place) (segment : String) : Except FileFault Place :=
  if tree.isDirectory place then
    if segment = "." then .ok place
    else if segment = ".." then .ok (parent place)
    else if nameLimit < segment.utf8ByteSize then .error .nameTooLong
    else .ok (place ++ [segment])
  else if (tree.find? place).isSome then .error .notDirectory
  else .error .notFound

/-- Where the walk along a path starts. -/
def start (path : String) : Except FileFault Place :=
  if path.toList.contains '\x00' then .error .nulInPath
  else if path.isEmpty then .error .notFound
  else if pathLimit < path.utf8ByteSize then .error .nameTooLong
  else .ok (if Path.isAbsolute path then ["/"] else [])

/-- The place that a path leads to, where something may or may not be. -/
def locate (tree : FileTree) (path : String) : Except FileFault Place := do
  (Path.segments path).foldlM tree.step (← start path)

/-- The content of the file at a path. -/
def read (tree : FileTree) (path : String) : Except FileFault Octets := do
  let place ← tree.locate path
  if tree.isDirectory place then .error .isDirectory
  else match tree.find? place with
    | some (.file content) =>
      if Path.hasTrailingSlash path then .error .notDirectory else .ok content
    | _ => .error .notFound

/-- The place where a file could be created. A path that ends in a slash leads to the directory
that holds its last name, whatever the name is. -/
def locateNew (tree : FileTree) (path : String) : Except FileFault Place := do
  let segments := Path.segments path
  let walk := if Path.hasTrailingSlash path then segments.dropLast ++ ["."] else segments
  walk.foldlM tree.step (← start path)

/-- Create or overwrite the file at a path. Its directory has to be there. -/
def write (tree : FileTree) (path : String) (content : Octets) : Except FileFault FileTree := do
  let place ← tree.locateNew path
  if tree.isDirectory place then .error .isDirectory else .ok (tree.put place (.file content))

def isFile (tree : FileTree) (path : String) : Bool := (tree.read path).isOk

/-- The files below the working directory with their paths, in the order of the paths. -/
def files (tree : FileTree) : List (String × Octets) :=
  let below := tree.entries.filterMap fun
    | (place, .file content) =>
      if place.head? == some ".." || place.head? == some "/" then none
      else some (String.intercalate "/" place, content)
    | _ => none
  below.mergeSort (fun a b => a.1 ≤ b.1)

/-- The names in the working directory, in order. -/
def names (tree : FileTree) : List String :=
  let below := tree.entries.filterMap fun
    | ([name], _) => if name = ".." || name = "/" then none else some name
    | _ => none
  below.mergeSort (· ≤ ·)

end FileTree

end DotGraph
