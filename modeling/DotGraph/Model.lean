import DotGraph.Attributes

/-!
# The model of a graph

Nodes, edges, defaults and nested subgraphs, as one family of types: an edge may end in a whole
subgraph. Statements are kept in order and may repeat. Equality is decided structurally.
-/

namespace DotGraph

/-- A declared node. The anchor is the raw text behind the colon that follows the name: a field of
the node, a compass point, or both. -/
structure Node where
  name : Ident
  anchor : Option String := none
  attributes : Attributes := .empty
deriving DecidableEq

/-- What a statement of default attributes applies to. -/
inductive ElementKind
  | node | edge
deriving DecidableEq

def ElementKind.keyword : ElementKind → Keyword
  | node => .node
  | edge => .edge

structure Defaults where
  kind : ElementKind
  attributes : Attributes
deriving DecidableEq

mutual

inductive Statement
  | node (node : Node)
  | edge (edge : Edge)
  | subgraph (body : Subgraph)
  | defaults (defaults : Defaults)

structure Edge where
  source : Endpoint
  destination : Endpoint
  attributes : Attributes

/-- An edge ends in a node, named with an optional anchor, or in all nodes of a subgraph. -/
inductive Endpoint
  | node (name : Ident) (anchor : Option String)
  | subgraph (body : Subgraph)

structure Subgraph where
  name : Option Ident
  attributes : Attributes
  statements : List Statement

end

mutual

def Statement.decEq : (a b : Statement) → Decidable (a = b)
  | .node a, .node b => decidable_of_iff (a = b) (by simp)
  | .edge a, .edge b => match Edge.decEq a b with
    | isTrue h => isTrue (by rw [h])
    | isFalse h => isFalse (by simpa using h)
  | .subgraph a, .subgraph b => match Subgraph.decEq a b with
    | isTrue h => isTrue (by rw [h])
    | isFalse h => isFalse (by simpa using h)
  | .defaults a, .defaults b => decidable_of_iff (a = b) (by simp)
  | .node _, .edge _ => isFalse (by simp)
  | .node _, .subgraph _ => isFalse (by simp)
  | .node _, .defaults _ => isFalse (by simp)
  | .edge _, .node _ => isFalse (by simp)
  | .edge _, .subgraph _ => isFalse (by simp)
  | .edge _, .defaults _ => isFalse (by simp)
  | .subgraph _, .node _ => isFalse (by simp)
  | .subgraph _, .edge _ => isFalse (by simp)
  | .subgraph _, .defaults _ => isFalse (by simp)
  | .defaults _, .node _ => isFalse (by simp)
  | .defaults _, .edge _ => isFalse (by simp)
  | .defaults _, .subgraph _ => isFalse (by simp)
termination_by structural a => a

def Edge.decEq : (a b : Edge) → Decidable (a = b)
  | ⟨s, d, x⟩, ⟨s', d', x'⟩ => match Endpoint.decEq s s', Endpoint.decEq d d' with
    | isTrue h, isTrue h' => decidable_of_iff (x = x') (by simp [h, h'])
    | isFalse h, _ => isFalse (by simp [h])
    | _, isFalse h => isFalse (by simp [h])
termination_by structural a => a

def Endpoint.decEq : (a b : Endpoint) → Decidable (a = b)
  | .node n p, .node n' p' => decidable_of_iff (n = n' ∧ p = p') (by simp)
  | .subgraph a, .subgraph b => match Subgraph.decEq a b with
    | isTrue h => isTrue (by rw [h])
    | isFalse h => isFalse (by simpa using h)
  | .node _ _, .subgraph _ => isFalse (by simp)
  | .subgraph _, .node _ _ => isFalse (by simp)
termination_by structural a => a

def Subgraph.decEq : (a b : Subgraph) → Decidable (a = b)
  | ⟨n, x, l⟩, ⟨n', x', l'⟩ => match Statement.decEqList l l' with
    | isTrue h => decidable_of_iff (n = n' ∧ x = x') (by simp [h])
    | isFalse h => isFalse (by simp [h])
termination_by structural a => a

def Statement.decEqList : (a b : List Statement) → Decidable (a = b)
  | [], [] => isTrue rfl
  | [], _ :: _ => isFalse (by simp)
  | _ :: _, [] => isFalse (by simp)
  | a :: l, b :: l' => match Statement.decEq a b, Statement.decEqList l l' with
    | isTrue h, isTrue h' => isTrue (by rw [h, h'])
    | isFalse h, _ => isFalse (by simp [h])
    | _, isFalse h => isFalse (by simp [h])
termination_by structural a => a

end

instance : DecidableEq Statement := Statement.decEq
instance : DecidableEq Edge := Edge.decEq
instance : DecidableEq Endpoint := Endpoint.decEq
instance : DecidableEq Subgraph := Subgraph.decEq

namespace Endpoint

/-- The raw text of a node endpoint, the anchor behind a colon. -/
def text? : Endpoint → Option String
  | node name none => some name.text
  | node name (some anchor) => some (name.text ++ ":" ++ anchor)
  | subgraph _ => none

/-- Whether the endpoint is a node with this raw text. The name is taken off its front, then the
colon, and the anchor must be what is left. -/
def denotes (e : Endpoint) (text : String) : Bool :=
  match e with
  | node name none => name.text == text
  | node name (some anchor) =>
    ((name.text.toList.isPrefixOf? text.toList).bind ([':'].isPrefixOf? ·)).any
      (· == anchor.toList)
  | subgraph _ => false

end Endpoint

namespace Edge

/-- The same endpoints; in either order where edges have no direction. -/
def sameEndpoints (directed : Bool) (e f : Edge) : Bool :=
  (e.source == f.source && e.destination == f.destination) ||
    (!directed && e.source == f.destination && e.destination == f.source)

def connects (e : Edge) (source destination : String) : Bool :=
  e.source.denotes source && e.destination.denotes destination

end Edge

end DotGraph
