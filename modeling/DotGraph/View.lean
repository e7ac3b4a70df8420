import DotGraph.Graph
import DotGraph.Json

/-!
# Views

A view of a graph for other programs: its statements grouped by kind, each group in order. How
the groups were interleaved is not part of the view.
-/

namespace DotGraph

structure AttributeView where
  name : String
  value : Option String
deriving DecidableEq

structure DefaultsView where
  kind : ElementKind
  attributes : List AttributeView
deriving DecidableEq

structure NodeView where
  id : String
  anchor : Option String
  attributes : List AttributeView
deriving DecidableEq

mutual

structure EdgeView where
  source : EndpointView
  destination : EndpointView
  attributes : List AttributeView

inductive EndpointView
  | node (text : String)
  | subgraph (view : SubgraphView)

structure SubgraphView where
  name : Option String
  attributes : List AttributeView
  defaults : List DefaultsView
  nodes : List NodeView
  edges : List EdgeView
  subgraphs : List SubgraphView

end

structure GraphView where
  kind : GraphKind
  strict : Bool
  body : SubgraphView

def AttributeView.of : Ident × AttrValue → AttributeView
  | (name, .text value) => ⟨name.text, some value.text⟩
  | (name, .implicit) => ⟨name.text, none⟩

def Attributes.view (a : Attributes) : List AttributeView := a.entries.map AttributeView.of

def Node.view (n : Node) : NodeView := ⟨n.name.text, n.anchor, n.attributes.view⟩

def Defaults.view (d : Defaults) : DefaultsView := ⟨d.kind, d.attributes.view⟩

mutual

def Edge.view : Edge → EdgeView
  | ⟨source, destination, attributes⟩ => ⟨source.view, destination.view, attributes.view⟩
termination_by structural e => e

def Endpoint.view : Endpoint → EndpointView
  | .node name none => .node name.text
  | .node name (some anchor) => .node (name.text ++ ":" ++ anchor)
  | .subgraph g => .subgraph g.view
termination_by structural e => e

def Subgraph.view : Subgraph → SubgraphView
  | ⟨name, attributes, statements⟩ =>
    Statement.group statements ⟨name.map (·.text), attributes.view, [], [], [], []⟩
termination_by structural g => g

/-- Put statements in front of the groups of a view. -/
def Statement.group : List Statement → SubgraphView → SubgraphView
  | [], v => v
  | .node n :: rest, v =>
    let v := Statement.group rest v
    { v with nodes := n.view :: v.nodes }
  | .edge e :: rest, v =>
    let v := Statement.group rest v
    { v with edges := e.view :: v.edges }
  | .subgraph g :: rest, v =>
    let v := Statement.group rest v
    { v with subgraphs := g.view :: v.subgraphs }
  | .defaults d :: rest, v =>
    let v := Statement.group rest v
    { v with defaults := d.view :: v.defaults }
termination_by structural statements => statements

end

def Graph.view (g : Graph) : GraphView := ⟨g.kind, g.strict, g.body.view⟩

namespace Json

def ofAttribute (a : AttributeView) : Json :=
  object [("name", string a.name), ("value", ofOption string a.value)]

def ofAttributes (l : List AttributeView) : Json := array (l.map ofAttribute)

def ofDefaults (d : DefaultsView) : Json :=
  object [("kind", string d.kind.keyword.text), ("attributes", ofAttributes d.attributes)]

def ofNode (n : NodeView) : Json :=
  object [("id", string n.id), ("port", ofOption string n.anchor),
    ("attributes", ofAttributes n.attributes)]

/-- The member that names a graph or a subgraph. -/
def nameMember (name : Option String) : String × Json := ("name", ofOption string name)

mutual

def ofEdge : EdgeView → Json
  | ⟨source, destination, attributes⟩ =>
    object [("from", ofEndpoint source), ("to", ofEndpoint destination),
      ("attributes", ofAttributes attributes)]
termination_by structural e => e

def ofEndpoint : EndpointView → Json
  | .node text => string text
  | .subgraph v => object (nameMember v.name :: members v)
termination_by structural e => e

/-- The members that graphs and subgraphs have in common, the name left out. -/
def members : SubgraphView → List (String × Json)
  | ⟨_, attributes, defaults, nodes, edges, subgraphs⟩ =>
    [("attributes", ofAttributes attributes), ("defaults", array (defaults.map ofDefaults)),
      ("nodes", array (nodes.map ofNode)), ("edges", array (ofEdges edges)),
      ("subgraphs", array (ofSubgraphs subgraphs))]
termination_by structural v => v

def ofEdges : List EdgeView → List Json
  | [] => []
  | e :: es => ofEdge e :: ofEdges es
termination_by structural es => es

def ofSubgraphs : List SubgraphView → List Json
  | [] => []
  | v :: vs => object (nameMember v.name :: members v) :: ofSubgraphs vs
termination_by structural vs => vs

end

def ofGraph (g : GraphView) : Json :=
  object (nameMember g.body.name :: ("kind", string g.kind.keyword.text) ::
    ("strict", boolean g.strict) :: members g.body)

end Json

end DotGraph
