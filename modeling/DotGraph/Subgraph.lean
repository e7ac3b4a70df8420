import DotGraph.Model

/-!
# Subgraphs

Adding, looking up, editing and deleting statements. Nested subgraphs are never searched. Repeated
declarations are kept; look-ups return every match in order and deletion picks one by its place
among the matches, or all of them.
-/

namespace DotGraph

namespace Statement

def node? : Statement → Option Node
  | node n => some n
  | _ => none

def edge? : Statement → Option Edge
  | edge e => some e
  | _ => none

def subgraph? : Statement → Option Subgraph
  | subgraph s => some s
  | _ => none

def isNodeNamed (name : String) (s : Statement) : Bool :=
  s.node?.any (·.name.text == name)

def isEdgeBetween (source destination : String) (s : Statement) : Bool :=
  s.edge?.any (·.connects source destination)

def isSubgraphNamed (name : String) (s : Statement) : Bool :=
  s.subgraph?.any (·.name.any (·.text == name))

end Statement

/-- The list without the element at place `i` among those that satisfy `p`. -/
def eraseMatch? (p : α → Bool) : Nat → List α → Option (List α)
  | _, [] => none
  | i, x :: xs =>
    if p x then match i with
      | 0 => some xs
      | i + 1 => (eraseMatch? p i xs).map (x :: ·)
    else (eraseMatch? p i xs).map (x :: ·)

/-- The list without the given match, or without all matches; `none` where nothing goes. -/
def eraseMatches? (p : α → Bool) (index : Option Nat) (xs : List α) : Option (List α) :=
  match index with
  | some i => eraseMatch? p i xs
  | none => if xs.any p then some (xs.filter (!p ·)) else none

/-- Replace the first element that satisfies `p`; `none` where there is none. -/
def modifyFirst? (p : α → Bool) (f : α → α) : List α → Option (List α)
  | [] => none
  | x :: xs => if p x then some (f x :: xs) else (modifyFirst? p f xs).map (x :: ·)

namespace Subgraph

def empty (name : Option Ident) : Subgraph := ⟨name, .empty, []⟩

instance : Inhabited Subgraph := ⟨empty none⟩

def push (g : Subgraph) (s : Statement) : Subgraph :=
  { g with statements := g.statements ++ [s] }

def addNode (g : Subgraph) (n : Node) : Subgraph := g.push (.node n)

def addEdge (g : Subgraph) (e : Edge) : Subgraph := g.push (.edge e)

def addSubgraph (g s : Subgraph) : Subgraph := g.push (.subgraph s)

def addDefaults (g : Subgraph) (d : Defaults) : Subgraph := g.push (.defaults d)

def nodes (g : Subgraph) : List Node := g.statements.filterMap Statement.node?

def edges (g : Subgraph) : List Edge := g.statements.filterMap Statement.edge?

def subgraphs (g : Subgraph) : List Subgraph := g.statements.filterMap Statement.subgraph?

def nodesNamed (g : Subgraph) (name : String) : List Node :=
  g.nodes.filter (·.name.text == name)

/-- The edges between endpoints of these raw texts, in this direction. -/
def edgesBetween (g : Subgraph) (source destination : String) : List Edge :=
  g.edges.filter (·.connects source destination)

def subgraphsNamed (g : Subgraph) (name : String) : List Subgraph :=
  g.subgraphs.filter (·.name.any (·.text == name))

/-- Change the first node of a name; `none` where there is none. -/
def modifyNode? (g : Subgraph) (name : String) (f : Node → Node) : Option Subgraph :=
  (modifyFirst? (Statement.isNodeNamed name) (fun
    | .node n => .node (f n)
    | s => s) g.statements).map ({ g with statements := · })

/-- Merge the attributes of a node into those of the first node of its name, or append it. -/
def mergeNode (g : Subgraph) (n : Node) : Subgraph :=
  (g.modifyNode? n.name.text fun m =>
    { m with attributes := m.attributes.merge n.attributes }).getD (g.addNode n)

/-- Merge the attributes of an edge into those of the first edge with its endpoints, or append
it. -/
def mergeEdge (g : Subgraph) (directed : Bool) (e : Edge) : Subgraph :=
  ((modifyFirst? (fun s => s.edge?.any (·.sameEndpoints directed e)) (fun
    | .edge f => .edge { f with attributes := f.attributes.merge e.attributes }
    | s => s) g.statements).map ({ g with statements := · })).getD (g.addEdge e)

/-- The subgraph without the given match of a statement, and whether there was one. -/
def eraseMatches (g : Subgraph) (p : Statement → Bool) (index : Option Nat) : Subgraph × Bool :=
  match eraseMatches? p index g.statements with
  | some statements => ({ g with statements }, true)
  | none => (g, false)

def eraseNodes (g : Subgraph) (name : String) (index : Option Nat) : Subgraph × Bool :=
  g.eraseMatches (Statement.isNodeNamed name) index

def eraseEdges (g : Subgraph) (source destination : String) (index : Option Nat) :
    Subgraph × Bool :=
  g.eraseMatches (Statement.isEdgeBetween source destination) index

def eraseSubgraphs (g : Subgraph) (name : String) (index : Option Nat) : Subgraph × Bool :=
  g.eraseMatches (Statement.isSubgraphNamed name) index

end Subgraph

end DotGraph
