import DotGraph.Document.Graphs
import DotGraph.Printer
import DotGraph.Text.Visible
import DotGraph.Toml.Parser

/-!
# Settings

What a settings file can change: where the layout programs are, how long they may run, how text
is laid out and how sources are read. A section is a table, or an array of its fields in order.
Sections have to be known; fields that are not are passed over.
-/

namespace DotGraph

structure Settings where
  /-- Paths of layout programs, on top of those that are known anyway. -/
  executables : List (String × String) := []
  timeoutSeconds : Option Nat := none
  printer : Printer := {}
  reader : Reader := {}
deriving DecidableEq

namespace Settings

/-- The file that is read when no other is named. -/
def fileName : String := "dotkit.toml"

/-- The names of the sections. -/
def sectionNames : List String := ["executables", "render", "writer", "parser"]

/-- What a value is called in a message. -/
def describe : Toml → String
  | .text s => "string " ++ Text.quoteText s
  | .integer n => "integer " ++ Toml.ticked (toString n)
  | .float s => "floating point " ++ Toml.ticked s
  | .boolean b => "boolean " ++ Toml.ticked (if b then "true" else "false")
  | .array _ | .tables _ => "sequence"
  | .moment _ | .table _ _ => "map"

/-- Why a document spells no settings. -/
inductive Misfit
  | unknownSection (name : String)
  | mistyped (found : Toml) (expected : String)
  | negative (n : Int)

def Misfit.message : Misfit → String
  | unknownSection name =>
    "unknown field " ++ Toml.ticked name ++ ", expected one of " ++
      String.intercalate ", " (sectionNames.map Toml.ticked)
  | mistyped found expected => "invalid type: " ++ describe found ++ ", expected " ++ expected
  | negative n => "invalid value: " ++ describe (.integer n) ++ ", expected u64"

/-- What is wrong in a text, and where. -/
structure Complaint where
  span : Span
  message : String

def misfit (span : Span) (m : Misfit) : Except Complaint α := .error ⟨span, m.message⟩

def mistyped (v : Toml.Located Toml) (expected : String) : Except Complaint α :=
  misfit v.span (.mistyped v.value expected)

def text (expected : String) (v : Toml.Located Toml) : Except Complaint String :=
  match v.value with
  | .text s => .ok s
  | _ => mistyped v expected

def boolean (v : Toml.Located Toml) : Except Complaint Bool :=
  match v.value with
  | .boolean b => .ok b
  | _ => mistyped v "a boolean"

def seconds (v : Toml.Located Toml) : Except Complaint Nat :=
  match v.value with
  | .integer n => if 0 ≤ n then .ok n.toNat else misfit v.span (.negative n)
  | _ => mistyped v "u64"

/-- The fields of a section, in the order in which they are read. -/
def fields (names : List String) (expected : String) (sect : Toml.Located Toml) :
    Except Complaint (List (String × Toml.Located Toml)) :=
  match sect.value with
  | .array vs => .ok (names.zip vs)
  | .tables bodies => .ok (names.zip (bodies.map fun b => ⟨b.span, .table .header b.value⟩))
  | _ => match Toml.entries? sect with
    | some entries => .ok (entries.map fun e => (e.1, e.2.toLocated))
    | none => mistyped sect expected

def readExecutables (sect : Toml.Located Toml) : Except Complaint (List (String × String)) :=
  match Toml.entries? sect with
  | some entries => entries.mapM fun e => do .ok (e.1, ← text "path string" e.2.toLocated)
  | none => mistyped sect "a map"

def readTimeout (sect : Toml.Located Toml) : Except Complaint (Option Nat) := do
  (← fields ["timeout_secs"] "struct RenderConfig" sect).foldlM (fun timeout e =>
    if e.1 = "timeout_secs" then some <$> seconds e.2 else .ok timeout) none

def readPrinter (sect : Toml.Located Toml) : Except Complaint Printer := do
  let names := ["sort_attributes", "attribute_separator", "indent"]
  (← fields names "struct WriterConfig" sect).foldlM (fun printer e =>
    match e.1 with
    | "sort_attributes" => do .ok { printer with sortAttributes := ← boolean e.2 }
    | "attribute_separator" => do .ok { printer with separator := ← text "a string" e.2 }
    | "indent" => do .ok { printer with indent := ← text "a string" e.2 }
    | _ => .ok printer) {}

def readReader (sect : Toml.Located Toml) : Except Complaint Reader := do
  (← fields ["inherit_defaults"] "struct ParserConfig" sect).foldlM (fun reader e =>
    if e.1 = "inherit_defaults" then Reader.mk <$> boolean e.2 else .ok reader) {}

def readSection (settings : Settings) (e : String × Toml.Entry Toml) :
    Except Complaint Settings :=
  match e.1 with
  | "executables" => do .ok { settings with executables := ← readExecutables e.2.toLocated }
  | "render" => do .ok { settings with timeoutSeconds := ← readTimeout e.2.toLocated }
  | "writer" => do .ok { settings with printer := ← readPrinter e.2.toLocated }
  | "parser" => do .ok { settings with reader := ← readReader e.2.toLocated }
  | name => misfit e.2.keySpan (.unknownSection name)

/-- The settings that a text spells. -/
def read (source : String) : Except Complaint Settings := do
  let root ← (Toml.ofString source).mapError fun f => ⟨.next f.rest, f.message⟩
  root.entries.foldlM readSection {}

end Settings

end DotGraph
