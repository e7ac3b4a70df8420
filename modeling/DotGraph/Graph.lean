import DotGraph.Charset.Codec
import DotGraph.GraphKind
import DotGraph.Subgraph

/-!
# Graphs

A graph is a subgraph at the root, with a kind and two flags. A strict graph merges an edge into
the one that has its endpoints already.
-/

namespace DotGraph

/-- The flag `simplify` leaves repeated edges out of the text of the graph. -/
structure Graph where
  kind : GraphKind
  strict : Bool := false
  simplify : Bool := false
  body : Subgraph
deriving DecidableEq

namespace Graph

/-- The name of graphs that are built without one. -/
def defaultName : Ident := ⟨"G"⟩

def named (name : Ident) (kind : GraphKind) : Graph := { kind, body := .empty (some name) }

def anonymous (kind : GraphKind) : Graph := { kind, body := .empty none }

instance : Inhabited Graph := ⟨named defaultName .graph⟩

def name (g : Graph) : Option Ident := g.body.name

def attributes (g : Graph) : Attributes := g.body.attributes

def addEdge (g : Graph) (e : Edge) : Graph :=
  if g.strict then { g with body := g.body.mergeEdge g.kind.isDirected e }
  else { g with body := g.body.addEdge e }

/-- The attribute that declares the character set. -/
def charsetName : Ident := ⟨"charset"⟩

/-- The declared character set; UTF-8 where none is declared. -/
def charset (g : Graph) : Except DotError Charset :=
  match g.attributes.ident? charsetName with
  | some label => Charset.ofLabel label.text
  | none => .ok .utf8

/-- Declare a character set by any of its labels. -/
def setCharset (g : Graph) (label : String) : Except DotError Graph := do
  let charset ← Charset.ofLabel label
  let attributes := g.attributes.set charsetName (.text ⟨charset.label⟩)
  .ok { g with body := { g.body with attributes } }

end Graph

end DotGraph
