import DotGraph.Document.Parser
import DotGraph.Graph

/-!
# From documents to graphs

The graphs that a document describes. Clauses are worked off in order. Defaults hold from their
clause to the end of the block around it, in inner blocks too, and may be copied into the nodes
and edges declared there. A node that is declared again and, in strict graphs, an edge that is
drawn again merge into the first.
-/

namespace DotGraph

/-- The defaults in force at a place. -/
structure Scope where
  node : Attributes := .empty
  edge : Attributes := .empty

def Scope.extend (scope : Scope) (kind : ElementKind) (attributes : Attributes) : Scope :=
  match kind with
  | .node => { scope with node := scope.node.merge attributes }
  | .edge => { scope with edge := scope.edge.merge attributes }

/-- How the clauses of a graph are read. -/
structure Rules where
  inheritDefaults : Bool
  strict : Bool
  directed : Bool

namespace Subgraph

/-- Declare a node: merge into the first node of the name, which keeps its anchor, or append a
node that starts from the inherited attributes. -/
def declareNode (g : Subgraph) (name : Ident) (anchor : Option String)
    (inherited explicit : Attributes) : Subgraph :=
  (g.modifyNode? name.text fun n =>
    { n with attributes := n.attributes.merge explicit }).getD
      (g.addNode ⟨name, anchor, inherited.merge explicit⟩)

def connect (g : Subgraph) (rules : Rules) (e : Edge) : Subgraph :=
  if rules.strict then g.mergeEdge rules.directed e else g.addEdge e

/-- Connect each endpoint with the next one. -/
def connectAll (g : Subgraph) (rules : Rules) (attributes : Attributes) :
    List Endpoint → Subgraph
  | source :: destination :: others =>
    connectAll (g.connect rules ⟨source, destination, attributes⟩) rules attributes
      (destination :: others)
  | _ => g

end Subgraph

/-- The attributes that a declaration starts from. -/
def Rules.inherited (rules : Rules) (attributes : Attributes) : Attributes :=
  if rules.inheritDefaults then attributes else .empty

mutual

/-- The container after a clause. Only a clause of defaults changes the scope. -/
def Clause.apply (rules : Rules) (scope : Scope) (g : Subgraph) : Clause → Scope × Subgraph
  | .defaults kind items =>
    let attributes := .ofItems items
    (scope.extend kind attributes, g.addDefaults ⟨kind, attributes⟩)
  | .graph items => (scope, { g with attributes := g.attributes.merge (.ofItems items) })
  | .assign name value => (scope, { g with attributes := g.attributes.set name (.text value) })
  | .node name anchor items =>
    (scope, g.declareNode name anchor (rules.inherited scope.node) (.ofItems items))
  | .edges first second others items =>
    let attributes := (rules.inherited scope.edge).merge (.ofItems items)
    (scope, g.connectAll rules attributes
      (first.endpoint rules scope :: second.endpoint rules scope ::
        Terminal.endpoints rules scope others))
  | .block block => (scope, g.addSubgraph (block.subgraph rules scope))
termination_by structural clause => clause

def Terminal.endpoint (rules : Rules) (scope : Scope) : Terminal → Endpoint
  | .node name anchor => .node name anchor
  | .block block => .subgraph (block.subgraph rules scope)
termination_by structural terminal => terminal

def Terminal.endpoints (rules : Rules) (scope : Scope) : List Terminal → List Endpoint
  | [] => []
  | terminal :: others => terminal.endpoint rules scope :: Terminal.endpoints rules scope others
termination_by structural terminals => terminals

/-- A block starts from the scope around it and leaves that scope as it is. -/
def Block.subgraph (rules : Rules) (scope : Scope) : Block → Subgraph
  | ⟨name, clauses⟩ => Clause.applyAll rules scope (.empty name) clauses
termination_by structural block => block

def Clause.applyAll (rules : Rules) (scope : Scope) (g : Subgraph) : List Clause → Subgraph
  | [] => g
  | clause :: clauses =>
    let (scope, g) := clause.apply rules scope g
    Clause.applyAll rules scope g clauses
termination_by structural clauses => clauses

end

/-- The graph of a declaration. -/
def Declaration.toGraph (inheritDefaults : Bool) (d : Declaration) : Graph where
  kind := d.kind
  strict := d.strict
  body := Clause.applyAll ⟨inheritDefaults, d.strict, d.kind.isDirected⟩ {} (.empty d.name)
    d.clauses

/-- What a source text holds: one graph, or several in order. -/
inductive Parsed
  | single (graph : Graph)
  | many (graphs : List Graph)
deriving DecidableEq

namespace Parsed

def ofList : List Graph → Parsed
  | [graph] => single graph
  | graphs => many graphs

def toList : Parsed → List Graph
  | single graph => [graph]
  | many graphs => graphs

end Parsed

/-- How source texts are read. -/
structure Reader where
  /-- Copy the defaults in force into each declaration. -/
  inheritDefaults : Bool := true
deriving DecidableEq

namespace Reader

def graphs (reader : Reader) (document : Document) : List Graph :=
  document.map (Declaration.toGraph reader.inheritDefaults)

def parse (reader : Reader) (source : String) : Except DotError Parsed :=
  match Document.ofString source with
  | .ok document => .ok (.ofList (reader.graphs document))
  | .error e => .error (.source e)

def parseOctets (reader : Reader) (charset : Charset) (octets : Octets) :
    Except DotError Parsed := do
  reader.parse (← charset.decode octets)

/-- The spellings by which raw octets declare Latin-1. -/
def latin1Declarations : List String :=
  ["charset=latin1", "charset=iso-8859-1", "charset=latin-1", "charset=l1"]

/-- Whether the ASCII octets, without blanks and quotes and in lower case, declare Latin-1. -/
def declaresLatin1 (octets : Octets) : Bool :=
  let ascii := ((octets.filter (· < 0x80)).map Charset.charOfOctet).map Char.toLower
  let text := ascii.filter fun c => !Text.isBlank c && c != '"'
  latin1Declarations.any fun declaration => Text.occursIn declaration.toList text

/-- Parse the content of a file, which is UTF-8 unless it is malformed and declares Latin-1. -/
def parseContent (reader : Reader) (octets : Octets) : Except DotError Parsed :=
  match Charset.utf8.decode octets with
  | .ok source => reader.parse source
  | .error e => if declaresLatin1 octets then reader.parseOctets .latin1 octets else .error e

end Reader

end DotGraph
