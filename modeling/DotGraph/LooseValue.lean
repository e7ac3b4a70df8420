import DotGraph.Graph

/-!
# Loosely typed values

Values whose kind is known only when they are used, as data from outside is. The operations that
take them refuse every kind but their own.
-/

namespace DotGraph

inductive LooseValue
  | text (s : String)
  | integer (n : Int)
  | float (x : Float)
  | boolean (b : Bool)
  | node (n : Node)
  | edge (e : Edge)
  | subgraph (g : Subgraph)

namespace LooseValue

def kind : LooseValue → ValueKind
  | text _ => .text
  | integer _ => .integer
  | float _ => .float
  | boolean _ => .boolean
  | node _ => .node
  | edge _ => .edge
  | subgraph _ => .subgraph

def mismatch (v : LooseValue) (expected : Expected) : DotError := .mismatch expected v.kind

def toText (expected : Expected) : LooseValue → Except DotError String
  | text s => .ok s
  | v => .error (v.mismatch expected)

def toNode : LooseValue → Except DotError Node
  | node n => .ok n
  | v => .error (v.mismatch .node)

def toEdge : LooseValue → Except DotError Edge
  | edge e => .ok e
  | v => .error (v.mismatch .edge)

def toSubgraph : LooseValue → Except DotError Subgraph
  | subgraph g => .ok g
  | v => .error (v.mismatch .subgraph)

end LooseValue

/-- Set an attribute to a value that has to be text. -/
def Attributes.trySet (a : Attributes) (name : Ident) (v : LooseValue) :
    Except DotError Attributes := do
  let text ← v.toText .attributeValue
  .ok (a.set name (.text ⟨text⟩))

end DotGraph
