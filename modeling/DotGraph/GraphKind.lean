import DotGraph.Error

/-!
# Graph kinds

Graphs whose edges have a direction, and graphs whose edges have none.
-/

namespace DotGraph

inductive GraphKind
  | graph | digraph
deriving DecidableEq

namespace GraphKind

def keyword : GraphKind → Keyword
  | graph => .graph
  | digraph => .digraph

def edgeOperator : GraphKind → String
  | graph => "--"
  | digraph => "->"

def isDirected (kind : GraphKind) : Bool := kind = digraph

/-- The kind for edges with or without a direction. -/
def ofDirected (directed : Bool) : GraphKind := if directed then digraph else graph

/-- The kind that a text names, whatever the case of its letters. -/
def ofText (text : String) : Except DotError GraphKind :=
  match [graph, digraph].find? (·.keyword.text = Text.lower text) with
  | some kind => .ok kind
  | none => .error (.mismatch .graphKind .text)

end GraphKind

end DotGraph
