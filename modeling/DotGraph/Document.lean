import DotGraph.GraphKind
import DotGraph.Model

/-!
# Documents

What a source text says, clause by clause, before defaults are handed down and repeated
declarations are merged. A document is a sequence of graph declarations.
-/

namespace DotGraph

/-- One `name` or `name=value` of a bracketed list. -/
abbrev Item := Ident × AttrValue

mutual

inductive Clause
  /-- The clause `node [...]` or `edge [...]`. -/
  | defaults (kind : ElementKind) (items : List Item)
  /-- The clause `graph [...]`. -/
  | graph (items : List Item)
  /-- The clause `name = value`. -/
  | assign (name value : Ident)
  | node (name : Ident) (anchor : Option String) (items : List Item)
  /-- A chain of two or more terminals. -/
  | edges (first second : Terminal) (others : List Terminal) (items : List Item)
  | block (block : Block)

/-- What an edge operator joins. -/
inductive Terminal
  | node (name : Ident) (anchor : Option String)
  | block (block : Block)

structure Block where
  name : Option Ident
  clauses : List Clause

end

structure Declaration where
  strict : Bool
  kind : GraphKind
  name : Option Ident
  clauses : List Clause

abbrev Document := List Declaration

end DotGraph
