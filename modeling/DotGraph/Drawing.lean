import DotGraph.FileTree
import DotGraph.OutputFormat
import DotGraph.Printer

/-!
# Drawing

Requests for drawings, and the layout programs that answer them. A program is looked up in a
table, its shape files are copied into a directory of their own, and it is launched there with the
text of the graph as its input. What a launched program does is a parameter.
-/

namespace DotGraph

/-- What to draw with, in which format, and the shape files that the graph refers to. -/
structure DrawRequest where
  program : String := "dot"
  format : OutputFormat := .postScript
  shapeFiles : List String := []
deriving DecidableEq

/-- Turns the octets of a graph into a drawing. -/
abbrev Renderer := Octets → DrawRequest → Except DotError Octets

namespace Graph

def draw (g : Graph) (renderer : Renderer) (request : DrawRequest) : Except DotError Octets := do
  renderer (← g.toOctets) request

/-- Draw with the program and the shape files of a plain request, in the format of a name. -/
def drawFormat (g : Graph) (renderer : Renderer) (format : String) : Except DotError Octets := do
  g.draw renderer { format := ← OutputFormat.ofText format }

def toFileError : Except FileFault α → Except DotError α := Except.mapError .file

/-- Draw into a file. -/
def drawTo (g : Graph) (tree : FileTree) (path : String) (renderer : Renderer)
    (request : DrawRequest) : Except DotError FileTree := do
  toFileError (tree.write path (← g.draw renderer request))

/-- Write the canonical text itself into a file. -/
def writeTo (g : Graph) (tree : FileTree) (path : String) : Except DotError FileTree := do
  toFileError (tree.write path (← g.toOctets))

end Graph

/-- The paths of the layout programs by name. -/
abbrev Executables := List (String × String)

namespace Executables

/-- The layout programs that are found by their own names. -/
def standard : Executables :=
  ["dot", "neato", "twopi", "circo", "fdp", "sfdp", "patchwork", "osage"].map fun p => (p, p)

def extend (table more : Executables) : Executables :=
  more.foldl (fun t e => Keyed.put e.1 e.2 t) table

/-- The entries in the order of the program names. -/
def sorted (table : Executables) : List (String × String) :=
  List.mergeSort table (fun a b => a.1 ≤ b.1)

end Executables

/-- What is run for a request. -/
structure Command where
  name : String
  executable : String
  arguments : List String
deriving DecidableEq

def Command.ofRequest (table : Executables) (request : DrawRequest) : Except DotError Command :=
  match Keyed.find? request.program table with
  | some executable => .ok ⟨request.program, executable, [request.format.flag]⟩
  | none => .error (.launch request.program .notInTable "")

/-- The files of a directory of its own, by name. -/
abbrev Staged := List (String × Octets)

namespace Staged

/-- Copy a file under the name that its path ends in. A later file replaces an earlier one of the
same name. -/
def copy (tree : FileTree) (staged : Staged) (path : String) : Except FileFault Staged := do
  match Path.fileName? path with
  | none => .error (.noFileName path)
  | some name => match tree.read path with
    | .ok content => .ok (Keyed.put name content staged)
    | .error .isDirectory => .error .notRegular
    | .error fault => .error fault

/-- Copy the shape files of a request; `none` where it has none. -/
def ofFiles (tree : FileTree) (paths : List String) : Except FileFault (Option Staged) :=
  if paths.isEmpty then .ok none else some <$> paths.foldlM (copy tree) []

end Staged

/-- How a program ended. -/
inductive ExitStatus
  | code (n : Nat)
  | killed
deriving DecidableEq

/-- What a program did, and for how many milliseconds it ran. -/
structure Run where
  status : ExitStatus
  output : Octets
  diagnostics : Octets
  elapsed : Nat

/-- Launch an executable with arguments in a directory (the working directory where there is none)
on an input. A program that cannot be started is a fault. -/
abbrev Launcher :=
  (executable : String) → (arguments : List String) → (directory : Option Staged) →
    (input : Octets) → Except LaunchFault Run

/-- Why an executable that is no known program cannot be launched where the files of a tree, none
of which is executable, are around. One without a slash is no file of the tree. -/
def LaunchFault.ofUnknown (tree : FileTree) (executable : String) : LaunchFault :=
  if executable.toList.contains '\x00' then .nulInExecutable executable
  else if executable.toList.contains '/' then match tree.read executable with
    | .ok _ | .error .isDirectory => .notExecutable executable
    | .error .notFound => .notFound executable
    | .error fault => .notStarted executable fault
  else if FileTree.nameLimit < executable.utf8ByteSize then .notStarted executable .nameTooLong
  else if executable = "." || executable = ".." then .notExecutable executable
  else .notFound executable

/-- Layout programs with the time they are given, in milliseconds. -/
structure Drawer where
  executables : Executables
  limit : Option Nat := none

namespace Drawer

/-- The drawing of a program that ran, or why there is none. -/
def outcome (drawer : Drawer) (name : String) (run : Run) : Except DotError Octets :=
  let diagnostics := String.ofList (Text.Utf8.decodeLossy run.diagnostics)
  match drawer.limit with
  | some limit =>
    if limit ≤ run.elapsed then .error (.launch name (.timedOut limit) "")
    else finish diagnostics
  | none => finish diagnostics
where
  finish (diagnostics : String) : Except DotError Octets :=
    match run.status with
    | .code 0 => .ok run.output
    | .code n => .error (.launch name (.exited n) diagnostics)
    | .killed => .error (.launch name .killed diagnostics)

/-- Draw by looking up the program, staging the shape files and launching, in this order. -/
def renderer (drawer : Drawer) (launcher : Launcher) (tree : FileTree) : Renderer :=
  fun dot request => do
    let command ← Command.ofRequest drawer.executables request
    let directory ← Graph.toFileError (Staged.ofFiles tree request.shapeFiles)
    match launcher command.executable command.arguments directory dot with
    | .ok run => drawer.outcome command.name run
    | .error fault => .error (.launch command.name fault "")

end Drawer

end DotGraph
