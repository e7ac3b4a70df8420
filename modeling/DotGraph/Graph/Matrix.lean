import DotGraph.Graph

/-!
# Graphs from lists and matrices

Graphs built from edge lists, adjacency matrices and incidence matrices. The name of a node is a
common stem followed by its label, or by the number of its row or column, counted from one.
-/

namespace DotGraph.Graph

def nodeIdent (stem label : String) : Ident := Ident.quotedIfNeeded (stem ++ label)

/-- The edge between the nodes of two labels. -/
def labelEdge (stem source destination : String) : Edge :=
  ⟨.node (nodeIdent stem source) none, .node (nodeIdent stem destination) none, .empty⟩

/-- A graph of the default name with the given edges. -/
def ofEdges (directed : Bool) (edges : List Edge) : Graph :=
  edges.foldl addEdge (named defaultName (.ofDirected directed))

def ofEdgeList (edges : List (String × String)) (stem : String) (directed : Bool) : Graph :=
  ofEdges directed (edges.map fun e => labelEdge stem e.1 e.2)

/-- The cells of a matrix, row by row, with their row and column. -/
def cells (rows : List (List α)) : List ((Nat × Nat) × α) :=
  rows.zipIdx.flatMap fun (row, i) => row.zipIdx.map fun (cell, j) => ((i, j), cell)

/-- One edge for each cell that differs from zero. Where edges have no direction the cells below
the diagonal are not read. -/
def ofAdjacency [BEq α] (zero : α) (rows : List (List α)) (stem : String)
    (directed : Bool) : Graph :=
  let chosen := (cells rows).filter fun e =>
    (directed || e.1.1 ≤ e.1.2) && e.2 != zero
  ofEdges directed (chosen.map fun e =>
    labelEdge stem (toString (e.1.1 + 1)) (toString (e.1.2 + 1)))

/-- The ends of the edge of a row: its columns that differ from zero, counted from one and
weighted by the cells, in ascending order. -/
def rowEnds (row : List Int64) : List Int64 :=
  ((row.zipIdx.filter (·.1 ≠ 0)).map fun e => (Int64.ofNat e.2 + 1) * e.1).mergeSort

/-- One edge for each row that has two cells other than zero. The end that is least by weight is
the source, so a negative cell marks it. Weights are 64-bit numbers and wrap around. -/
def ofIncidence (rows : List (List Int64)) (stem : String) (directed : Bool) : Graph :=
  ofEdges directed (rows.filterMap fun row => match rowEnds row with
    | [a, b] => some (labelEdge stem (toString a.abs) (toString b.abs))
    | _ => none)

end DotGraph.Graph
