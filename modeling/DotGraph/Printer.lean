import DotGraph.Graph

/-!
# Printing

The canonical text of a graph. It is determined by the model and the layout of the printer.
-/

namespace DotGraph

/-- How canonical text is laid out. The indent is repeated for each level of nesting. -/
structure Printer where
  /-- Write attributes in the order of their names instead of their own. -/
  sortAttributes : Bool := false
  separator : String := ", "
  indent : String := ""
deriving DecidableEq

namespace Printer

def indentation (p : Printer) (depth : Nat) : String :=
  String.join (List.replicate depth p.indent)

/-- The attributes in the order in which they are written. -/
def ordered (p : Printer) (a : Attributes) : List (Ident × AttrValue) :=
  if p.sortAttributes then a.entries.mergeSort (fun e f => e.1.text ≤ f.1.text) else a.entries

def item : Ident × AttrValue → String
  | (name, .text value) => name.toDot ++ "=" ++ value.toDot
  | (name, .implicit) => name.toDot

def attributeList (p : Printer) (a : Attributes) : String :=
  "[" ++ String.intercalate p.separator ((p.ordered a).map item) ++ "]"

/-- A list behind a blank, or nothing where there are no attributes. -/
def attributeSuffix (p : Printer) (a : Attributes) : String :=
  if a.isEmpty then "" else " " ++ p.attributeList a

/-- The line of an attribute of a graph. -/
def graphAttribute : Ident × AttrValue → String
  | (name, .text value) => name.toDot ++ "=" ++ value.toDot ++ ";"
  | (name, .implicit) => "graph [" ++ name.toDot ++ "];"

/-- A name with the anchor behind it. -/
def anchored (name : String) : Option String → String
  | none => name
  | some anchor => name ++ ":" ++ anchor

/-- The line of a node. A node named by a keyword writes the keyword itself, and nothing where it
has no attributes. -/
def node (p : Printer) (n : Node) : String :=
  if n.name.isKeyword then
    if n.attributes.isEmpty then ""
    else anchored n.name.text n.anchor ++ p.attributeSuffix n.attributes ++ ";"
  else anchored n.name.toDot n.anchor ++ p.attributeSuffix n.attributes ++ ";"

def defaults (p : Printer) (d : Defaults) : String :=
  d.kind.keyword.text ++ " " ++ p.attributeList d.attributes ++ ";"

/-- The text that opens a subgraph. -/
def opening : Option Ident → String
  | none => "\x7b\n"
  | some name => "subgraph " ++ name.toDot ++ " \x7b\n"

/-- A statement on its line; an empty one takes no line. -/
def line (p : Printer) (depth : Nat) (text : String) : String :=
  if text.isEmpty then "" else p.indentation depth ++ text ++ "\n"

def attributeLines (p : Printer) (depth : Nat) (a : Attributes) : String :=
  String.join ((p.ordered a).map fun e => p.indentation depth ++ graphAttribute e ++ "\n")

mutual

/-- A subgraph whose statements stand at a depth. -/
def block (p : Printer) (kind : GraphKind) (simplify : Bool) (depth : Nat) : Subgraph → String
  | ⟨name, attributes, statements⟩ =>
    opening name ++ p.attributeLines depth attributes ++
      lines p kind simplify depth [] statements ++ p.indentation (depth - 1) ++ "\x7d"
termination_by structural g => g

/-- The lines of statements, behind the given edges of the same subgraph. Simplified text leaves
out an edge that joins what an earlier one joins. -/
def lines (p : Printer) (kind : GraphKind) (simplify : Bool) (depth : Nat) (earlier : List Edge) :
    List Statement → String
  | [] => ""
  | .node n :: rest => p.line depth (p.node n) ++ lines p kind simplify depth earlier rest
  | .defaults d :: rest => p.line depth (p.defaults d) ++ lines p kind simplify depth earlier rest
  | .subgraph g :: rest =>
    p.line depth (block p kind simplify (depth + 1) g) ++ lines p kind simplify depth earlier rest
  | .edge e :: rest =>
    if simplify && earlier.any (·.sameEndpoints kind.isDirected e) then
      lines p kind simplify depth earlier rest
    else p.line depth (edge p kind e) ++ lines p kind simplify depth (e :: earlier) rest
termination_by structural statements => statements

def edge (p : Printer) (kind : GraphKind) : Edge → String
  | ⟨source, destination, attributes⟩ =>
    endpoint p kind source ++ " " ++ kind.edgeOperator ++ " " ++ endpoint p kind destination ++
      p.attributeSuffix attributes ++ ";"
termination_by structural e => e

/-- A subgraph that an edge ends in is written as if it stood at the root, and never
simplified. -/
def endpoint (p : Printer) (kind : GraphKind) : Endpoint → String
  | .node name anchor => anchored name.toDot anchor
  | .subgraph g => block p kind false 1 g
termination_by structural e => e

end

def subgraph (p : Printer) (kind : GraphKind) (g : Subgraph) : String := p.block kind false 1 g

def header (g : Graph) : String :=
  (if g.strict then "strict " else "") ++ g.kind.keyword.text ++
    (match g.name with
      | some name => " " ++ name.toDot
      | none => "") ++ " \x7b\n"

def graph (p : Printer) (g : Graph) : String :=
  header g ++ p.attributeLines 1 g.attributes ++
    p.lines g.kind g.simplify 1 [] g.body.statements ++ "\x7d\n"

def graphs (p : Printer) (gs : List Graph) : String := String.join (gs.map p.graph)

/-- A statement of the root of a graph, on its own. -/
def statement (p : Printer) (kind : GraphKind) : Statement → String
  | .node n => p.node n
  | .edge e => p.edge kind e
  | .subgraph g => p.subgraph kind g
  | .defaults d => p.defaults d

end Printer

namespace Graph

/-- The canonical text in the layout that is used where none is chosen. -/
def text (g : Graph) : String := ({} : Printer).graph g

/-- The canonical text in the declared character set. -/
def toOctets (g : Graph) : Except DotError Octets := do
  (← g.charset).encode g.text

end Graph

end DotGraph
