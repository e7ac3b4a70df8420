import DotGraph.Batch
import DotGraph.CommandLine.Arguments
import DotGraph.Settings.File
import DotGraph.View

/-!
# The command line

Running an invocation in a working directory. The settings are looked up first. A batch goes on
past the files that fail; any failure makes the exit code 1. Arguments that spell no invocation
make it 2.
-/

namespace DotGraph.CommandLine

/-- What a run leaves: its exit code, what it wrote to the two outputs, and the files. -/
structure Outcome where
  exitCode : Nat := 0
  output : Octets := []
  diagnostics : Octets := []
  tree : FileTree

def octets (text : String) : Octets := Text.Utf8.encode text.toList

/-- A line that reports a failure. -/
def failureLine (path : String) (failure : Failure) : Octets :=
  octets (path ++ ": " ++ failure.message ++ "\n")

/-- The outcome of a batch, whose good results are shown by `view`. -/
def ofReports (view : String → α → Octets) (reports : List (Batch.Report α)) (tree : FileTree) :
    Outcome where
  exitCode := if reports.all (·.result.isOk) then 0 else 1
  output := reports.flatMap fun r => match r.result with
    | .ok a => view r.path a
    | .error _ => []
  diagnostics := reports.flatMap fun r => match r.result with
    | .ok _ => []
    | .error failure => failureLine r.path failure
  tree := tree

/-- The outcome of a job that failed as a whole. -/
def ofFailure (failure : Failure) (tree : FileTree) : Outcome :=
  { exitCode := 1, diagnostics := failureLine "Error" failure, tree }

/-- How drawings are made under settings. -/
def drawer (settings : Settings) : Drawer where
  executables := Executables.standard.extend settings.executables
  limit := settings.timeoutSeconds.map (· * 1000)

def runDraw (settings : Settings) (launcher : Launcher) (tree : FileTree)
    (file output format program : String) (shapeFiles : List String) : Outcome :=
  match OutputFormat.ofText format with
  | .error e => ofFailure (.error e) tree
  | .ok format =>
    let drawn := Batch.drawFile settings.reader ((drawer settings).renderer launcher tree)
      ⟨program, format, shapeFiles⟩ tree file output
    match drawn.result with
    | .error failure => ofFailure failure drawn.tree
    | .ok size =>
      { output := octets s!"Wrote {size} bytes to {output}\n", tree := drawn.tree }

def runView (settings : Settings) (tree : FileTree) (file : String) (pretty : Bool) : Outcome :=
  match Batch.parseFile settings.reader tree file with
  | .error failure => ofFailure failure tree
  | .ok graphs =>
    let view := Json.array (graphs.map (Json.ofGraph ·.view))
    { output := octets ((if pretty then view.pretty else view.compact) ++ "\n"), tree }

def runJob (settings : Settings) (launcher : Launcher) (tree : FileTree) : Job → Outcome
  | .format files sortAttributes inPlace =>
    let printer := { settings.printer with
      sortAttributes := settings.printer.sortAttributes || sortAttributes }
    let (reports, tree) := Batch.formatFiles settings.reader printer inPlace files tree
    ofReports (fun _ content => if inPlace then [] else content) reports tree
  | .check files =>
    ofReports (fun path n => octets s!"{path}: ok ({n} graph(s))\n")
      (Batch.checkFiles settings.reader files tree) tree
  | .draw file output format program shapeFiles =>
    runDraw settings launcher tree file output format program shapeFiles
  | .view file pretty => runView settings tree file pretty

def Invocation.run (launcher : Launcher) (tree : FileTree) (i : Invocation) : Outcome :=
  match Settings.discover tree i.settings with
  | .error failure => ofFailure failure tree
  | .ok settings => runJob settings launcher tree i.job

/-- How a job, or the program, is called. -/
def usage : Option JobName → String
  | none => "Usage: dotkit [--config FILE] fmt|check|render|json ...\n"
  | some .format => "Usage: dotkit fmt [--sort-attributes] [--in-place] [--config FILE] FILE...\n"
  | some .check => "Usage: dotkit check [--config FILE] FILE...\n"
  | some .draw => "Usage: dotkit render [-T FORMAT] [-K PROGRAM] [--shape-file FILE]... " ++
      "[--config FILE] -o FILE FILE\n"
  | some .view => "Usage: dotkit json [--pretty] [--config FILE] FILE\n"

def Stop.outcome (tree : FileTree) : Stop → Outcome
  | .help topic => { output := octets (usage topic), tree }
  | .version => { output := octets "dotkit 0.1.0\n", tree }
  | .misuse fault =>
    { exitCode := 2, diagnostics := octets ("error: " ++ fault.message ++ "\n"), tree }

/-- Run the program on arguments in a working directory. -/
def run (launcher : Launcher) (args : List String) (tree : FileTree) : Outcome :=
  match Invocation.ofArguments args with
  | .error stop => stop.outcome tree
  | .ok i => i.run launcher tree

end DotGraph.CommandLine
