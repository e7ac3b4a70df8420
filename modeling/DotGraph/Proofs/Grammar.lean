import DotGraph.Document.Parser
import Mathlib.Tactic.Common

/-!
# The grammar

The documents of the language as derivations over lexemes. Each relation holds between a sequence
of lexemes and the tree that it spells: identifiers, anchors, bracketed lists, clauses, blocks,
declarations and documents. Nothing here says how a sequence is read.
-/

namespace DotGraph.Grammar

/-- Further literals behind a literal, each after a `+`. -/
inductive IsConcatenation : String → List Lexeme → String → Prop
  | nil (a : String) : IsConcatenation a [] a
  | cons {a b c : String} {xs : List Lexeme} (h : IsConcatenation (Parser.joinQuoted a b) xs c) :
      IsConcatenation a (.symbol .plus :: .word .quoted b :: xs) c

/-- Identifiers: `ID := non-keyword name | numeral | html | quoted ('+' quoted)*` -/
inductive IsIdent : List Lexeme → Ident → Prop
  | name {text : String} (h : Keyword.ofText? text = none) : IsIdent [.word .name text] ⟨text⟩
  | numeral (text : String) : IsIdent [.word .numeral text] ⟨text⟩
  | html (text : String) : IsIdent [.word .html text] ⟨text⟩
  | quoted {a b : String} {xs : List Lexeme} (h : IsConcatenation a xs b) :
      IsIdent (.word .quoted a :: xs) ⟨b⟩

/-- Anchors: `port := [':' ID [':' ID]]` -/
inductive IsAnchor : List Lexeme → Option String → Prop
  | none : IsAnchor [] none
  | field {xs : List Lexeme} {field : Ident} (h : IsIdent xs field) :
      IsAnchor (.symbol .colon :: xs) (some field.text)
  | compass {xs ys : List Lexeme} {field compass : Ident} (h : IsIdent xs field)
      (h' : IsIdent ys compass) :
      IsAnchor (.symbol .colon :: (xs ++ .symbol .colon :: ys))
        (some (field.text ++ ":" ++ compass.text))

/-- One item of a list: `ID ['=' ID]` -/
inductive IsItem : List Lexeme → Item → Prop
  | implicit {xs : List Lexeme} {name : Ident} (h : IsIdent xs name) : IsItem xs (name, .implicit)
  | text {xs ys : List Lexeme} {name value : Ident} (h : IsIdent xs name)
      (h' : IsIdent ys value) : IsItem (xs ++ .symbol .equals :: ys) (name, .text value)

/-- The items of one list: `(',' | ';' | ID ['=' ID])*` -/
inductive IsItems : List Lexeme → List Item → Prop
  | nil : IsItems [] []
  | comma {xs : List Lexeme} {items : List Item} (h : IsItems xs items) :
      IsItems (.symbol .comma :: xs) items
  | semicolon {xs : List Lexeme} {items : List Item} (h : IsItems xs items) :
      IsItems (.symbol .semicolon :: xs) items
  | cons {xs ys : List Lexeme} {item : Item} {items : List Item} (h : IsItem xs item)
      (h' : IsItems ys items) : IsItems (xs ++ ys) (item :: items)

/-- Any number of lists, with the items of all in one:
`attrlist := '[' (',' | ';' | ID ['=' ID])* ']'` -/
inductive IsLists : List Lexeme → List Item → Prop
  | nil : IsLists [] []
  | cons {xs ys : List Lexeme} {items others : List Item} (h : IsItems xs items)
      (h' : IsLists ys others) :
      IsLists (.symbol .openBracket :: (xs ++ .symbol .closeBracket :: ys)) (items ++ others)

/-- One list, with any number of items. -/
lemma IsItems.lists {xs : List Lexeme} {items : List Item} (h : IsItems xs items) :
    IsLists (.symbol .openBracket :: (xs ++ [.symbol .closeBracket])) items := by
  simpa using IsLists.cons h .nil

/-- One list of a single item. -/
lemma IsItem.lists {xs : List Lexeme} {item : Item} (h : IsItem xs item) :
    IsLists (.symbol .openBracket :: (xs ++ [.symbol .closeBracket])) [item] := by
  simpa using (IsItems.cons h .nil).lists

/-- Edge operators: `op := '->' | '--'` -/
inductive IsEdgeOperator : Lexeme → Prop
  | arrow : IsEdgeOperator (.symbol .arrow)
  | line : IsEdgeOperator (.symbol .line)

/-- A name that may be missing: `[ID]` -/
inductive IsName : List Lexeme → Option Ident → Prop
  | none : IsName [] none
  | some {xs : List Lexeme} {name : Ident} (h : IsIdent xs name) : IsName xs (some name)

mutual

/-- The clauses of a block: `body := (';' | stmt)*` -/
inductive IsClauses : List Lexeme → List Clause → Prop
  | nil : IsClauses [] []
  | semicolon {xs : List Lexeme} {clauses : List Clause} (h : IsClauses xs clauses) :
      IsClauses (.symbol .semicolon :: xs) clauses
  | cons {xs ys : List Lexeme} {clause : Clause} {clauses : List Clause} (h : IsClause xs clause)
      (h' : IsClauses ys clauses) : IsClauses (xs ++ ys) (clause :: clauses)

/-- Clauses: `stmt := (node|edge|graph) attrlist+ | ID '=' ID | ID port attrlist* | sub
| (ID port | sub) (op endpoint)+ attrlist*` -/
inductive IsClause : List Lexeme → Clause → Prop
  | defaults {x : Lexeme} {kind : ElementKind} {xs : List Lexeme} {items : List Item}
      (hx : x.keyword? = some kind.keyword) (h : IsLists xs items) (hne : xs ≠ []) :
      IsClause (x :: xs) (.defaults kind items)
  | graph {x : Lexeme} {xs : List Lexeme} {items : List Item} (hx : x.keyword? = some .graph)
      (h : IsLists xs items) (hne : xs ≠ []) : IsClause (x :: xs) (.graph items)
  | assign {xs ys : List Lexeme} {name value : Ident} (h : IsIdent xs name)
      (h' : IsIdent ys value) : IsClause (xs ++ .symbol .equals :: ys) (.assign name value)
  | node {xs ys zs : List Lexeme} {name : Ident} {anchor : Option String} {items : List Item}
      (h : IsIdent xs name) (h' : IsAnchor ys anchor) (hl : IsLists zs items) :
      IsClause (xs ++ (ys ++ zs)) (.node name anchor items)
  | block {xs : List Lexeme} {block : Block} (h : IsBlock xs block) : IsClause xs (.block block)
  | edges {o : Lexeme} {xs ys zs ws : List Lexeme} {first second : Terminal}
      {others : List Terminal} {items : List Item} (h : IsTerminal xs first)
      (ho : IsEdgeOperator o) (h' : IsTerminal ys second) (hs : IsTerminals zs others)
      (hl : IsLists ws items) :
      IsClause (xs ++ o :: (ys ++ (zs ++ ws))) (.edges first second others items)

/-- What edge operators join: `endpoint := ID port | sub` -/
inductive IsTerminal : List Lexeme → Terminal → Prop
  | node {xs ys : List Lexeme} {name : Ident} {anchor : Option String} (h : IsIdent xs name)
      (h' : IsAnchor ys anchor) : IsTerminal (xs ++ ys) (.node name anchor)
  | block {xs : List Lexeme} {block : Block} (h : IsBlock xs block) :
      IsTerminal xs (.block block)

/-- Further terminals of a chain: `(op endpoint)*` -/
inductive IsTerminals : List Lexeme → List Terminal → Prop
  | nil : IsTerminals [] []
  | cons {o : Lexeme} {xs ys : List Lexeme} {terminal : Terminal} {terminals : List Terminal}
      (ho : IsEdgeOperator o) (h : IsTerminal xs terminal) (h' : IsTerminals ys terminals) :
      IsTerminals (o :: (xs ++ ys)) (terminal :: terminals)

/-- Blocks: `sub := ['subgraph' [ID]] '{' body '}'` -/
inductive IsBlock : List Lexeme → Block → Prop
  | bare {xs : List Lexeme} {clauses : List Clause} (h : IsClauses xs clauses) :
      IsBlock (.symbol .openBrace :: (xs ++ [.symbol .closeBrace])) ⟨none, clauses⟩
  | subgraph {x : Lexeme} {xs ys : List Lexeme} {name : Option Ident} {clauses : List Clause}
      (hx : x.keyword? = some .subgraph) (hn : IsName xs name) (h : IsClauses ys clauses) :
      IsBlock (x :: (xs ++ .symbol .openBrace :: (ys ++ [.symbol .closeBrace]))) ⟨name, clauses⟩

end

/-- The flag in front of a graph: `[strict]` -/
inductive IsStrict : List Lexeme → Bool → Prop
  | absent : IsStrict [] false
  | present {x : Lexeme} (hx : x.keyword? = some .strict) : IsStrict [x] true

/-- Graphs: `block := [strict] (graph|digraph) [ID] '{' body '}'` -/
inductive IsDeclaration : List Lexeme → Declaration → Prop
  | intro {x : Lexeme} {ss xs ys : List Lexeme} {strict : Bool} {kind : GraphKind}
      {name : Option Ident} {clauses : List Clause} (hs : IsStrict ss strict)
      (hx : x.keyword? = some kind.keyword) (hn : IsName xs name) (h : IsClauses ys clauses) :
      IsDeclaration (ss ++ x :: (xs ++ .symbol .openBrace :: (ys ++ [.symbol .closeBrace])))
        ⟨strict, kind, name, clauses⟩

/-- Graphs and semicolons in any order: `(';' | block)*` -/
inductive IsDeclarations : List Lexeme → List Declaration → Prop
  | nil : IsDeclarations [] []
  | semicolon {xs : List Lexeme} {ds : List Declaration} (h : IsDeclarations xs ds) :
      IsDeclarations (.symbol .semicolon :: xs) ds
  | cons {xs ys : List Lexeme} {d : Declaration} {ds : List Declaration} (h : IsDeclaration xs d)
      (h' : IsDeclarations ys ds) : IsDeclarations (xs ++ ys) (d :: ds)

/-- Documents: `document := ';'* (block ';'*)+` up to the end of the input, that is graphs and
semicolons in any order, with one graph at least. -/
def IsDocument (xs : List Lexeme) (document : Document) : Prop :=
  IsDeclarations xs document ∧ document ≠ []

end DotGraph.Grammar
