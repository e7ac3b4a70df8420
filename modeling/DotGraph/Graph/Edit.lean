import DotGraph.LooseValue

/-!
# Edits

The operations that change a graph and leave its kind and its strictness, as data, so that they
can be run one after the other. A refused edit leaves the graph as it is.
-/

namespace DotGraph

inductive Edit
  | setName (name : Option Ident)
  | setSimplify (simplify : Bool)
  | setCharset (label : String)
  | addNode (node : Node)
  | addEdge (edge : Edge)
  | addSubgraph (body : Subgraph)
  | addDefaults (defaults : Defaults)
  | tryAddNode (value : LooseValue)
  | tryAddEdge (value : LooseValue)
  | tryAddSubgraph (value : LooseValue)
  | mergeNode (node : Node)
  /-- The first node of a name is handed out to be changed in any way. -/
  | changeNode (name : String) (change : Node → Node)
  /-- The attributes of the graph are handed out to be changed in any way. -/
  | changeAttributes (change : Attributes → Attributes)
  | eraseNodes (name : String) (index : Option Nat)
  | eraseEdges (source destination : String) (index : Option Nat)
  | eraseSubgraphs (name : String) (index : Option Nat)

/-- What an edit answers: whether there was something to find, or why it was refused. -/
inductive Reply
  | done
  | found (any : Bool)
  | refused (error : DotError)

namespace Graph

def withBody (g : Graph) (body : Subgraph) : Graph := { g with body }

/-- The graph that was made, or the graph as it is where that was refused. -/
def attempt (g : Graph) : Except DotError Graph → Reply × Graph
  | .ok made => (.done, made)
  | .error e => (.refused e, g)

end Graph

namespace Edit

def apply (g : Graph) : Edit → Reply × Graph
  | setName name => (.done, g.withBody { g.body with name })
  | setSimplify simplify => (.done, { g with simplify })
  | setCharset label => g.attempt (g.setCharset label)
  | addNode n => (.done, g.withBody (g.body.addNode n))
  | addEdge e => (.done, g.addEdge e)
  | addSubgraph s => (.done, g.withBody (g.body.addSubgraph s))
  | addDefaults d => (.done, g.withBody (g.body.addDefaults d))
  | tryAddNode v => g.attempt (v.toNode.map fun n => g.withBody (g.body.addNode n))
  | tryAddEdge v => g.attempt (v.toEdge.map g.addEdge)
  | tryAddSubgraph v => g.attempt (v.toSubgraph.map fun s => g.withBody (g.body.addSubgraph s))
  | mergeNode n => (.done, g.withBody (g.body.mergeNode n))
  | changeNode name change => match g.body.modifyNode? name change with
    | some body => (.found true, g.withBody body)
    | none => (.found false, g)
  | changeAttributes change =>
    (.done, g.withBody { g.body with attributes := change g.body.attributes })
  | eraseNodes name index =>
    let (body, found) := g.body.eraseNodes name index
    (.found found, g.withBody body)
  | eraseEdges source destination index =>
    let (body, found) := g.body.eraseEdges source destination index
    (.found found, g.withBody body)
  | eraseSubgraphs name index =>
    let (body, found) := g.body.eraseSubgraphs name index
    (.found found, g.withBody body)

/-- The edge that an edit hands to the graph. -/
def edge? : Edit → Option Edge
  | addEdge e => some e
  | tryAddEdge (.edge e) => some e
  | _ => none

end Edit

/-- The graph after a sequence of edits. -/
def Graph.run (g : Graph) (edits : List Edit) : Graph :=
  edits.foldl (fun g edit => (edit.apply g).2) g

end DotGraph
