import DotGraph.Document.Graphs
import DotGraph.Drawing
import DotGraph.Failure

/-!
# Tasks on files

Formatting, checking and drawing files. Each task takes a file tree and, where it writes, returns
the tree it leaves. Files of a batch are independent: one that fails stops no other.
-/

namespace DotGraph.Batch

/-- The graphs of a file. -/
def parseFile (reader : Reader) (tree : FileTree) (path : String) : Except Failure (List Graph) :=
  Failure.within (.parsing path) <| Except.mapError .error do
    let content ← (tree.read path).mapError DotError.file
    return (← reader.parseContent content).toList

/-- The canonical text of the graphs of a source. -/
def formatText (reader : Reader) (printer : Printer) (source : String) : Except DotError String :=
  (reader.parse source).map fun parsed => printer.graphs parsed.toList

/-- Canonical text of graphs, each in its declared character set. -/
def encodeAll (printer : Printer) (graphs : List Graph) : Except DotError Octets :=
  List.flatten <$> graphs.mapM fun g => do (← g.charset).encode (printer.graph g)

/-- The canonical content of a file. -/
def canonical (reader : Reader) (printer : Printer) (tree : FileTree) (path : String) :
    Except Failure Octets := do
  let graphs ← parseFile reader tree path
  Failure.within (.encoding path) ((encodeAll printer graphs).mapError .error)

/-- Format a file. In place, its content is replaced by the canonical one. -/
def formatFile (reader : Reader) (printer : Printer) (inPlace : Bool) (tree : FileTree)
    (path : String) : Except Failure Octets × FileTree :=
  match canonical reader printer tree path with
  | .error f => (.error f, tree)
  | .ok content =>
    if inPlace then match tree.write path content with
      | .error fault => (.error (.during (.writing path) (.file fault)), tree)
      | .ok tree => (.ok content, tree)
    else (.ok content, tree)

/-- What came of a file. -/
structure Report (α : Type) where
  path : String
  result : Except Failure α

def formatFiles (reader : Reader) (printer : Printer) (inPlace : Bool) :
    List String → FileTree → List (Report Octets) × FileTree
  | [], tree => ([], tree)
  | path :: paths, tree =>
    let (result, tree) := formatFile reader printer inPlace tree path
    let (reports, tree) := formatFiles reader printer inPlace paths tree
    (⟨path, result⟩ :: reports, tree)

/-- The number of graphs in a file. -/
def checkFile (reader : Reader) (tree : FileTree) (path : String) : Except Failure Nat :=
  (parseFile reader tree path).map List.length

def checkFiles (reader : Reader) (paths : List String) (tree : FileTree) : List (Report Nat) :=
  paths.map fun path => ⟨path, checkFile reader tree path⟩

/-- Draw graphs one after the other up to the first that fails. The first component holds what
the renderer was given. -/
def drawAll (renderer : Renderer) (request : DrawRequest) :
    List Graph → List Octets × Except DotError Octets
  | [] => ([], .ok [])
  | g :: gs => match g.toOctets with
    | .error e => ([], .error e)
    | .ok dot => match renderer dot request with
      | .error e => ([dot], .error e)
      | .ok drawing =>
        let (given, others) := drawAll renderer request gs
        (dot :: given, others.map (drawing ++ ·))

/-- What came of drawing a file: the octets given to the renderer, the size of the drawing, and
the tree that is left. -/
structure Drawn where
  given : List Octets := []
  result : Except Failure Nat
  tree : FileTree

/-- Draw all graphs of a file into another one. -/
def drawFile (reader : Reader) (renderer : Renderer) (request : DrawRequest) (tree : FileTree)
    (input output : String) : Drawn :=
  if Path.same input output then { result := .error (.overwritesInput input), tree }
  else match parseFile reader tree input with
    | .error f => { result := .error f, tree }
    | .ok graphs => match drawAll renderer request graphs with
      | (given, .error e) =>
        { given, result := .error (.during (.drawing input request.program) (.error e)), tree }
      | (given, .ok drawing) => match tree.write output drawing with
        | .error fault =>
          { given, result := .error (.during (.writing output) (.file fault)), tree }
        | .ok tree => { given, result := .ok drawing.length, tree }

end DotGraph.Batch
