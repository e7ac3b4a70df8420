import DotGraph.Text.Blank

/-!
# Keywords

The six reserved words of the language, read in any mixture of cases.
-/

namespace DotGraph

inductive Keyword
  | node | edge | graph | digraph | subgraph | strict
deriving DecidableEq

namespace Keyword

def text : Keyword → String
  | node => "node"
  | edge => "edge"
  | graph => "graph"
  | digraph => "digraph"
  | subgraph => "subgraph"
  | strict => "strict"

/-- The keyword that a text spells, whatever the case of its letters. -/
def ofText? (s : String) : Option Keyword :=
  [node, edge, graph, digraph, subgraph, strict].find? (·.text = Text.lower s)

end Keyword

end DotGraph
