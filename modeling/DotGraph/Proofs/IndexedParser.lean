import DotGraph.Document.Graphs
import DotGraph.Proofs.OffsetScan

/-!
# Parsing by index

A parser that keeps an index into the list of tokens and builds the graphs while it reads. The last
mark of the list is the one of the end, which no step goes behind. A loop is told by what one turn
of it does.
-/

namespace DotGraph

open Attempt

namespace Mark

def symbol? (mark : Mark) : Option Symbol :=
  match mark.lexeme? with
  | some (.symbol s) => some s
  | _ => none

def keyword? (mark : Mark) : Option Keyword := mark.lexeme?.bind Lexeme.keyword?

end Mark

/-- What a turn of a loop leaves: a state for the next turn, or the result of the loop. -/
inductive Turn (σ α : Type)
  | again (state : σ)
  | done (result : α)

namespace IndexedParser

/-- A machine that is started at an index and leaves another. -/
abbrev Routine (ι α : Type) := ReaderT ι (StateT Nat Attempt) α

lemma run_eq (routine : Routine ι α) (x : ι) (i : Nat) : (routine.run x).run i = routine x i := rfl

variable (turn : σ → Nat → Attempt (Turn σ α × Nat)) (marks : List Mark)

/-- Take turns until one is done. -/
def loop : Routine σ α := fun state i => do
  match ← turn state i with
  | (.again state, i) => (loop.run state).run i
  | (.done result, i) => return (result, i)
partial_fixpoint

/-- The mark at an index, and the last one behind the list. -/
def markAt (i : Nat) : Attempt Mark := do
  let last ← lower marks.length
  checked .outOfRange marks[min i last]?

/-- Go behind a mark, but not behind the last one. -/
def bump (i : Nat) : Attempt Nat := do
  let _ ← markAt marks i
  let last ← lower marks.length
  return if i < last then i + 1 else i

/-- Go behind a symbol if it is the next one. -/
def eat (s : Symbol) (i : Nat) : Attempt (Bool × Nat) := do
  if (← markAt marks i).symbol? = some s then return (true, ← bump marks i)
  else return (false, i)

def unexpected (wanted : Wanted) (i : Nat) : Attempt α := do
  let mark ← markAt marks i
  refuse ⟨mark.position, .unexpected wanted mark.lexeme?⟩

def expect (s : Symbol) (wanted : Wanted) (i : Nat) : Attempt Nat := do
  let (found, i) ← eat marks s i
  if found then return i else unexpected marks wanted i

/-! ### Identifiers -/

/-- One literal in place of two: the last quote of the one and the first of the other fall away. -/
def join (literal next : String) : Attempt String := do
  let tail ← slice next 1 next.utf8ByteSize
  return String.ofList literal.toList.dropLast ++ tail

def concatenationTurn (literal : String) (i : Nat) : Attempt (Turn String Ident × Nat) := do
  if (← markAt marks i).symbol? = some .plus then
    match (← markAt marks (i + 1)).lexeme? with
    | some (.word .quoted next) =>
      let i ← bump marks i
      let i ← bump marks i
      return (.again (← join literal next), i)
    | _ => unexpected marks .quotedText (← bump marks i)
  else return (.done ⟨literal⟩, i)

def ident (i : Nat) : Attempt (Ident × Nat) := do
  let mark ← markAt marks i
  match mark.lexeme? with
  | some (.word .name text) =>
    if (Keyword.ofText? text).isSome then refuse ⟨mark.position, .keywordAsIdent text⟩
    else return (⟨text⟩, ← bump marks i)
  | some (.word .numeral text) => return (⟨text⟩, ← bump marks i)
  | some (.word .html text) => return (⟨text⟩, ← bump marks i)
  | some (.word .quoted text) => loop (concatenationTurn marks) text (← bump marks i)
  | _ => unexpected marks .identifier i

/-- The anchor behind a colon, with the second part it may have. -/
def anchor (i : Nat) : Attempt (Option String × Nat) := do
  let (found, i) ← eat marks .colon i
  if found then
    let (field, i) ← ident marks i
    let (found, i) ← eat marks .colon i
    if found then
      let (compass, i) ← ident marks i
      return (some (field.text ++ ":" ++ compass.text), i)
    else return (some field.text, i)
  else return (none, i)

/-! ### Attributes -/

/-- The store with one more item. A name that it holds goes to the end. -/
def item (attributes : Attributes) (i : Nat) : Attempt (Attributes × Nat) := do
  let (name, i) ← ident marks i
  let attributes := attributes.erase name
  let (found, i) ← eat marks .equals i
  if found then
    let (value, i) ← ident marks i
    return (attributes.set name (.text value), i)
  else return (attributes.set name .implicit, i)

/-- One item of a list, a separator, or the bracket that closes the list. -/
def itemTurn (attributes : Attributes) (i : Nat) : Attempt (Turn Attributes Attributes × Nat) := do
  match (← markAt marks i).lexeme? with
  | some (.symbol .closeBracket) => return (.done attributes, ← bump marks i)
  | some (.symbol .comma) => return (.again attributes, ← bump marks i)
  | some (.symbol .semicolon) => return (.again attributes, ← bump marks i)
  | none => unexpected marks .closeBracket i
  | _ =>
    let (attributes, i) ← item marks attributes i
    return (.again attributes, i)

/-- One bracketed list, if there is another. -/
def listTurn (attributes : Attributes) (i : Nat) : Attempt (Turn Attributes Attributes × Nat) := do
  let (found, i) ← eat marks .openBracket i
  if found then
    let (attributes, i) ← loop (itemTurn marks) attributes i
    return (.again attributes, i)
  else return (.done attributes, i)

def attributeLists (i : Nat) : Attempt (Attributes × Nat) := loop (listTurn marks) .empty i

/-- The lists behind a keyword that needs one at least. -/
def requiredLists (i : Nat) : Attempt (Attributes × Nat) := do
  let i ← bump marks i
  if (← markAt marks i).symbol? = some .openBracket then attributeLists marks i
  else unexpected marks .openBracket i

/-! ### Statements -/

/-- A name that may be missing in front of a brace. -/
def optionalName (i : Nat) : Attempt (Option Ident × Nat) := do
  if (← markAt marks i).symbol? = some .openBrace then return (none, i)
  else
    let (name, i) ← ident marks i
    return (some name, i)

def blockName (i : Nat) : Attempt (Option Ident × Nat) := do
  if (← markAt marks i).keyword? = some .subgraph then optionalName marks (← bump marks i)
  else return (none, i)

def atBlock (i : Nat) : Attempt Bool := do
  let mark ← markAt marks i
  return mark.keyword? = some .subgraph || mark.symbol? = some .openBrace

def atEdgeOperator (i : Nat) : Attempt Bool := do
  let mark ← markAt marks i
  return mark.symbol? = some .arrow || mark.symbol? = some .line

variable (rules : Rules)

mutual

/-- The statements in front of a closing brace, worked off in a container. This loop and `chain`
stand beside their turns, which come back to them in inner blocks. -/
def statements : Routine (Scope × Subgraph) (Scope × Subgraph) := fun state i => do
  match ← (statementsTurn.run state).run i with
  | (.again state, i) => (statements.run state).run i
  | (.done state, i) => return (state, i)
partial_fixpoint

def statementsTurn :
    Routine (Scope × Subgraph) (Turn (Scope × Subgraph) (Scope × Subgraph)) := fun state i => do
  match (← markAt marks i).lexeme? with
  | some (.symbol .closeBrace) => return (.done state, i)
  | some (.symbol .semicolon) => return (.again state, ← bump marks i)
  | none => unexpected marks .closeBrace i
  | _ =>
    let (state, i) ← (statement.run state).run i
    return (.again state, i)
partial_fixpoint

def statement : Routine (Scope × Subgraph) (Scope × Subgraph) := fun (scope, g) i => do
  match (← markAt marks i).keyword? with
  | some .node =>
    let (attributes, i) ← requiredLists marks i
    return ((scope.extend .node attributes, g.addDefaults ⟨.node, attributes⟩), i)
  | some .edge =>
    let (attributes, i) ← requiredLists marks i
    return ((scope.extend .edge attributes, g.addDefaults ⟨.edge, attributes⟩), i)
  | some .graph =>
    let (attributes, i) ← requiredLists marks i
    return ((scope, { g with attributes := g.attributes.merge attributes }), i)
  | _ =>
    if ← atBlock marks i then (blockStatement.run (scope, g)).run i
    else (nodeStatement.run (scope, g)).run i
partial_fixpoint

/-- A block that stands alone or starts a chain. -/
def blockStatement : Routine (Scope × Subgraph) (Scope × Subgraph) := fun (scope, g) i => do
  let (block, i) ← (subgraph.run scope).run i
  if ← atEdgeOperator marks i then (edgeChain.run ((scope, g), .subgraph block)).run i
  else return ((scope, g.addSubgraph block), i)
partial_fixpoint

/-- A name that is given a value, starts a chain or declares a node. -/
def nodeStatement : Routine (Scope × Subgraph) (Scope × Subgraph) := fun (scope, g) i => do
  let (name, i) ← ident marks i
  let (found, i) ← eat marks .equals i
  if found then
    let (value, i) ← ident marks i
    return ((scope, { g with attributes := g.attributes.set name (.text value) }), i)
  else
    let (anchor, i) ← anchor marks i
    if ← atEdgeOperator marks i then (edgeChain.run ((scope, g), .node name anchor)).run i
    else
      let (attributes, i) ← attributeLists marks i
      return ((scope, g.declareNode name anchor (rules.inherited scope.node) attributes), i)
partial_fixpoint

/-- The edges behind the first endpoint of a chain. -/
def edgeChain : Routine ((Scope × Subgraph) × Endpoint) (Scope × Subgraph) :=
    fun ((scope, g), first) i => do
  let (endpoints, i) ← (chain.run (scope, [first])).run i
  let (attributes, i) ← attributeLists marks i
  return ((scope,
    g.connectAll rules ((rules.inherited scope.edge).merge attributes) endpoints), i)
partial_fixpoint

def chain : Routine (Scope × List Endpoint) (List Endpoint) := fun (scope, endpoints) i => do
  match ← (chainTurn.run (scope, endpoints)).run i with
  | (.again endpoints, i) => (chain.run (scope, endpoints)).run i
  | (.done endpoints, i) => return (endpoints, i)
partial_fixpoint

def chainTurn : Routine (Scope × List Endpoint) (Turn (List Endpoint) (List Endpoint)) :=
    fun (scope, endpoints) i => do
  if ← atEdgeOperator marks i then
    let (next, i) ← (endpoint.run scope).run (← bump marks i)
    return (.again (endpoints ++ [next]), i)
  else return (.done endpoints, i)
partial_fixpoint

def endpoint : Routine Scope Endpoint := fun scope i => do
  if ← atBlock marks i then
    let (block, i) ← (subgraph.run scope).run i
    return (.subgraph block, i)
  else
    let (name, i) ← ident marks i
    let (anchor, i) ← anchor marks i
    return (.node name anchor, i)
partial_fixpoint

def subgraph : Routine Scope Subgraph := fun scope i => do
  let (name, i) ← blockName marks i
  let i ← expect marks .openBrace .openBrace i
  (untilBrace.run (scope, .empty name)).run i
partial_fixpoint

/-- The container behind the statements up to a closing brace. -/
def untilBrace : Routine (Scope × Subgraph) Subgraph := fun state i => do
  let (state, i) ← (statements.run state).run i
  let i ← expect marks .closeBrace .closeBrace i
  return (state.2, i)
partial_fixpoint

end

/-! ### Documents -/

def graphKind (i : Nat) : Attempt (GraphKind × Nat) := do
  match (← markAt marks i).keyword? with
  | some .graph => return (.graph, ← bump marks i)
  | some .digraph => return (.digraph, ← bump marks i)
  | _ => unexpected marks .graphKeyword i

/-- The keyword of a strict graph, if it is there. -/
def strictness (i : Nat) : Attempt (Bool × Nat) := do
  if (← markAt marks i).keyword? = some .strict then return (true, ← bump marks i)
  else return (false, i)

variable (reader : Reader)

/-- One graph, up to the brace that closes it. -/
def block (i : Nat) : Attempt (Graph × Nat) := do
  let (strict, i) ← strictness marks i
  let (kind, i) ← graphKind marks i
  let (name, i) ← optionalName marks i
  let i ← expect marks .openBrace .openBrace i
  let rules := ⟨reader.inheritDefaults, strict, kind.isDirected⟩
  let (body, i) ← untilBrace marks rules ({}, .empty name) i
  return ({ kind, strict, body }, i)

def semicolonTurn (_ : Unit) (i : Nat) : Attempt (Turn Unit Unit × Nat) := do
  let (found, i) ← eat marks .semicolon i
  return (if found then .again () else .done (), i)

def blockTurn (graphs : List Graph) (i : Nat) : Attempt (Turn (List Graph) (List Graph) × Nat) := do
  let (_, i) ← loop (semicolonTurn marks) () i
  if (← markAt marks i).lexeme? = none then return (.done graphs, i)
  else
    let (graph, i) ← block marks reader i
    return (.again (graphs ++ [graph]), i)

/-- All graphs up to the mark of the end. There has to be one. -/
def document : Attempt (List Graph) := do
  let (graphs, i) ← loop (blockTurn marks reader) [] 0
  if graphs.isEmpty then unexpected marks .graphKeyword i else return graphs

/-- Scan a source by offset and parse its tokens by index. -/
def parse (source : String) : Attempt Parsed := do
  let marks ← OffsetScan.tokenize source
  return .ofList (← document marks reader)

end IndexedParser

end DotGraph
