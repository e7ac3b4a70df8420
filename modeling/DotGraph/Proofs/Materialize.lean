import DotGraph.Proofs.RoundTrip

/-!
# Handing down defaults

Reading with inherited defaults is reading without them, followed by a pass over the graph. The
pass walks through the statements of each container in order with the defaults in force. It puts
them in front of the attributes of nodes and edges and leaves everything else as it is. A node
that is declared again merges into an earlier place, where other defaults were in force than where
it is declared again. It keeps those of its place, because merging is associative.
-/

namespace DotGraph

open Grammar

/-! ### The pass -/

mutual

def Statement.materialize (scope : Scope) : Statement → Statement
  | .node n => .node { n with attributes := scope.node.merge n.attributes }
  | .edge e => .edge (e.materialize scope)
  | .subgraph g => .subgraph (g.materialize scope)
  | .defaults d => .defaults d
termination_by structural s => s

def Edge.materialize (scope : Scope) : Edge → Edge
  | ⟨source, destination, attributes⟩ =>
    ⟨source.materialize scope, destination.materialize scope, scope.edge.merge attributes⟩
termination_by structural e => e

def Endpoint.materialize (scope : Scope) : Endpoint → Endpoint
  | .node name anchor => .node name anchor
  | .subgraph g => .subgraph (g.materialize scope)
termination_by structural e => e

/-- The container with the defaults in `scope`, and those of its own, put in front of the
attributes that nodes and edges hold. -/
def Subgraph.materialize (scope : Scope) : Subgraph → Subgraph
  | ⟨name, attributes, statements⟩ =>
    ⟨name, attributes, Statement.materializeAll scope statements⟩
termination_by structural g => g

def Statement.materializeAll (scope : Scope) : List Statement → List Statement
  | [] => []
  | s :: ss => s.materialize scope :: Statement.materializeAll (scope.after s) ss
termination_by structural ss => ss

end

def Graph.materialize (g : Graph) : Graph := { g with body := g.body.materialize {} }

def Parsed.materialize : Parsed → Parsed
  | .single g => .single g.materialize
  | .many gs => .many (gs.map Graph.materialize)

/-- The defaults in force behind the statements of a container. -/
def Scope.behind (scope : Scope) (g : Subgraph) : Scope := g.statements.foldl Scope.after scope

lemma Parsed.materialize_ofList (gs : List Graph) :
    (Parsed.ofList gs).materialize = .ofList (gs.map Graph.materialize) := by
  match gs with
  | [] | [_] | _ :: _ :: _ => rfl

/-! ### Operations on containers -/

lemma Statement.materializeAll_append (scope : Scope) (ss tt : List Statement) :
    Statement.materializeAll scope (ss ++ tt) =
      Statement.materializeAll scope ss ++
        Statement.materializeAll (ss.foldl Scope.after scope) tt := by
  induction ss generalizing scope with
  | nil => rfl
  | cons s ss ih =>
    rw [List.cons_append, materializeAll, ih]
    rfl

/-- A change of the first statement of a kind can be made before or after the pass, if it goes
well with the pass and leaves defaults alone. -/
lemma modifyFirst?_materializeAll {q : Statement → Bool} {f : Statement → Statement}
    (hq : ∀ scope s, q (s.materialize scope) = q s)
    (hf : ∀ scope s, f (s.materialize scope) = (f s).materialize scope)
    (ha : ∀ (scope : Scope) s, scope.after (f s) = scope.after s)
    (scope : Scope) (ss : List Statement) :
    modifyFirst? q f (Statement.materializeAll scope ss) =
      (modifyFirst? q f ss).map (Statement.materializeAll scope) := by
  induction ss generalizing scope with
  | nil => rfl
  | cons s ss ih =>
    rw [Statement.materializeAll, modifyFirst?, modifyFirst?, hq]
    by_cases hs : q s = true
    · rw [if_pos hs, if_pos hs, hf, Option.map_some, Statement.materializeAll, ha]
    · rw [if_neg hs, if_neg hs, ih, Option.map_map, Option.map_map]
      rfl

lemma foldl_after_of_modifyFirst? {q : Statement → Bool} {f : Statement → Statement}
    (ha : ∀ (scope : Scope) s, scope.after (f s) = scope.after s)
    {ss tt : List Statement} (h : modifyFirst? q f ss = some tt) (scope : Scope) :
    tt.foldl Scope.after scope = ss.foldl Scope.after scope := by
  obtain ⟨as, s, bs, rfl, -, rfl⟩ := modifyFirst?_eq_some h
  simp only [List.foldl_append, List.foldl_cons, ha]

namespace Subgraph

variable (start : Scope) (g : Subgraph)

lemma materialize_eq :
    g.materialize start =
      { g with statements := Statement.materializeAll start g.statements } := by
  cases g
  rfl

lemma materialize_push (s : Statement) :
    (g.push s).materialize start =
      (g.materialize start).push (s.materialize (start.behind g)) := by
  rw [materialize_eq start g, materialize_eq, push, Statement.materializeAll_append]
  rfl

lemma behind_push (s : Statement) : start.behind (g.push s) = (start.behind g).after s := by
  rw [Scope.behind, push, List.foldl_append]
  rfl

section DeclareNode

variable (name : Ident) (anchor : Option String) (explicit : Attributes)

/-- Attributes are added to a node behind those that it has. -/
def mergeInto (explicit : Attributes) : Statement → Statement
  | .node n => .node { n with attributes := n.attributes.merge explicit }
  | s => s

lemma mergeInto_materialize (scope : Scope) (s : Statement) :
    mergeInto explicit (s.materialize scope) = (mergeInto explicit s).materialize scope := by
  cases s with
  | node n =>
    -- what is declared again comes behind, so the defaults of the first place stay in front
    have hassoc := scope.node.merge_assoc n.attributes explicit
    exact congrArg (fun a => Statement.node { n with attributes := a }) hassoc
  | edge | subgraph | defaults => rfl

lemma after_mergeInto (scope : Scope) (s : Statement) :
    scope.after (mergeInto explicit s) = scope.after s := by
  cases s <;> rfl

lemma isNodeNamed_materialize (name : String) (scope : Scope) (s : Statement) :
    (s.materialize scope).isNodeNamed name = s.isNodeNamed name := by
  cases s <;> rfl

lemma declareNode_eq (inherited : Attributes) :
    g.declareNode name anchor inherited explicit =
      (((modifyFirst? (Statement.isNodeNamed name.text) (mergeInto explicit) g.statements).map
        ({ g with statements := · })).getD
          (g.addNode ⟨name, anchor, inherited.merge explicit⟩)) := rfl

lemma materialize_declareNode :
    (g.declareNode name anchor .empty explicit).materialize start =
      (g.materialize start).declareNode name anchor (start.behind g).node explicit := by
  have hmodify := modifyFirst?_materializeAll (isNodeNamed_materialize name.text)
    (mergeInto_materialize explicit) (after_mergeInto explicit) start g.statements
  rw [declareNode_eq, declareNode_eq, materialize_eq start g, hmodify]
  cases modifyFirst? (Statement.isNodeNamed name.text) (mergeInto explicit) g.statements with
  | none =>
    have hpush := materialize_push start g (.node ⟨name, anchor, explicit⟩)
    rw [materialize_eq start g] at hpush
    rw [Attributes.empty_merge]
    exact hpush
  | some ss => rfl

lemma behind_declareNode (inherited : Attributes) :
    start.behind (g.declareNode name anchor inherited explicit) = start.behind g := by
  rw [declareNode_eq]
  cases h : modifyFirst? (Statement.isNodeNamed name.text) (mergeInto explicit) g.statements with
  | none => exact behind_push start g _
  | some ss => exact foldl_after_of_modifyFirst? (after_mergeInto explicit) h start

end DeclareNode

section Connect

variable {directed : Bool} (attributes : Attributes) (ends : List Endpoint)

lemma materialize_connectAll :
    (g.connectAll ⟨false, false, directed⟩ attributes ends).materialize start =
      (g.materialize start).connectAll ⟨true, false, directed⟩
        ((start.behind g).edge.merge attributes)
        (ends.map (Endpoint.materialize (start.behind g))) := by
  induction ends generalizing g with
  | nil => rfl
  | cons source ends ih =>
    cases ends with
    | nil => rfl
    | cons destination ends =>
      have hbehind := behind_push start g (.edge ⟨source, destination, attributes⟩)
      have hpush := materialize_push start g (.edge ⟨source, destination, attributes⟩)
      have hrest := ih (g.push (.edge ⟨source, destination, attributes⟩))
      rw [hbehind, hpush] at hrest
      exact hrest

lemma behind_connectAll {inherit : Bool} :
    start.behind (g.connectAll ⟨inherit, false, directed⟩ attributes ends) = start.behind g := by
  induction ends generalizing g with
  | nil => rfl
  | cons source ends ih =>
    cases ends with
    | nil => rfl
    | cons destination ends =>
      have hpush := behind_push start g (.edge ⟨source, destination, attributes⟩)
      exact (ih (g.push (.edge ⟨source, destination, attributes⟩))).trans hpush

end Connect

lemma materialize_withAttributes (a : Attributes) :
    ({ g with attributes := a } : Subgraph).materialize start =
      { g.materialize start with attributes := a } := by
  rw [materialize_eq, materialize_eq]

lemma attributes_materialize : (g.materialize start).attributes = g.attributes := by
  rw [materialize_eq]

end Subgraph

/-! ### Clauses -/

section Clauses

variable {directed : Bool}

/-- The scope of a container is the one behind its statements. -/
lemma behind_apply {start now : Scope} {g : Subgraph} (c : Clause) (h : start.behind g = now) :
    start.behind (c.apply ⟨false, false, directed⟩ now g).2 =
      (c.apply ⟨false, false, directed⟩ now g).1 := by
  cases c with
  | defaults kind items =>
    rw [Clause.apply, Subgraph.addDefaults, Subgraph.behind_push, h]
    rfl
  | graph items => exact h
  | assign name value => exact h
  | node name anchor items =>
    rw [Clause.apply, Subgraph.behind_declareNode, h]
  | edges first second others items =>
    rw [Clause.apply, Subgraph.behind_connectAll, h]
  | block b =>
    rw [Clause.apply, Subgraph.addSubgraph, Subgraph.behind_push, h]
    rfl

mutual

/-- A clause may be worked off with inherited defaults behind the pass, or without them before
it. -/
theorem apply_materialize :
    (c : Clause) → (start now : Scope) → (g : Subgraph) → start.behind g = now →
    c.apply ⟨true, false, directed⟩ now (g.materialize start) =
      ((c.apply ⟨false, false, directed⟩ now g).1,
        (c.apply ⟨false, false, directed⟩ now g).2.materialize start)
  | .defaults kind items, start, now, g, h => by
    simp only [Clause.apply, Subgraph.addDefaults, Subgraph.materialize_push]
    rfl
  | .graph items, start, now, g, h => by
    simp only [Clause.apply, Subgraph.materialize_withAttributes, Subgraph.attributes_materialize]
  | .assign name value, start, now, g, h => by
    simp only [Clause.apply, Subgraph.materialize_withAttributes, Subgraph.attributes_materialize]
  | .node name anchor items, start, now, g, h => by
    have hnode := Subgraph.materialize_declareNode start g name anchor (.ofItems items)
    rw [h] at hnode
    exact congrArg (Prod.mk now) hnode.symm
  | .edges first second others items, start, now, g, h => by
    have hedges := @Subgraph.materialize_connectAll start g directed (.ofItems items)
      (first.endpoint ⟨false, false, directed⟩ now ::
        second.endpoint ⟨false, false, directed⟩ now ::
          Terminal.endpoints ⟨false, false, directed⟩ now others)
    rw [h, List.map_cons, List.map_cons, ← endpoint_materialize first,
      ← endpoint_materialize second, ← endpoints_materialize others] at hedges
    -- without inherited defaults an edge holds what is written, and the pass adds the rest
    have hplain : Rules.inherited ⟨false, false, directed⟩ now.edge = .empty := rfl
    rw [Clause.apply, Clause.apply, hplain, Attributes.empty_merge]
    exact congrArg (Prod.mk now) hedges.symm
  | .block b, start, now, g, h => by
    simp only [Clause.apply, Subgraph.addSubgraph, Subgraph.materialize_push, h,
      subgraph_materialize b now]
    rfl
termination_by structural c => c

theorem endpoint_materialize : (t : Terminal) → (scope : Scope) →
    t.endpoint ⟨true, false, directed⟩ scope =
      (t.endpoint ⟨false, false, directed⟩ scope).materialize scope
  | .node _ _, _ => rfl
  | .block b, scope => congrArg Endpoint.subgraph (subgraph_materialize b scope)
termination_by structural t => t

theorem endpoints_materialize : (ts : List Terminal) → (scope : Scope) →
    Terminal.endpoints ⟨true, false, directed⟩ scope ts =
      (Terminal.endpoints ⟨false, false, directed⟩ scope ts).map (Endpoint.materialize scope)
  | [], _ => rfl
  | t :: ts, scope => by
    rw [Terminal.endpoints, endpoint_materialize t, endpoints_materialize ts]
    rfl
termination_by structural ts => ts

theorem subgraph_materialize : (b : Block) → (scope : Scope) →
    b.subgraph ⟨true, false, directed⟩ scope =
      (b.subgraph ⟨false, false, directed⟩ scope).materialize scope
  | ⟨name, clauses⟩, scope => applyAll_materialize clauses scope scope (.empty name) rfl
termination_by structural b => b

theorem applyAll_materialize :
    (cs : List Clause) → (start now : Scope) → (g : Subgraph) → start.behind g = now →
    Clause.applyAll ⟨true, false, directed⟩ now (g.materialize start) cs =
      (Clause.applyAll ⟨false, false, directed⟩ now g cs).materialize start
  | [], _, _, _, _ => rfl
  | c :: cs, start, now, g, h => by
    rw [Clause.applyAll, apply_materialize c start now g h]
    exact applyAll_materialize cs start _ _ (behind_apply c h)
termination_by structural cs => cs

end

end Clauses

/-! ### Sources -/

lemma toGraph_materialize {d : Declaration} (h : d.strict = false) :
    d.toGraph true = (d.toGraph false).materialize := by
  obtain ⟨strict, kind, name, clauses⟩ := d
  cases h
  exact congrArg (Graph.mk kind false false) (applyAll_materialize clauses {} {} (.empty name) rfl)

namespace Reader

/-- Where no graph is strict, reading with inherited defaults fails as it does without them, and
gives the graphs that the pass makes of those read without them. -/
theorem parse_inherit_eq_materialize {source : String}
    (h : ∀ parsed, Reader.parse ⟨false⟩ source = .ok parsed →
      ∀ g ∈ parsed.toList, g.strict = false) :
    Reader.parse ⟨true⟩ source = (Reader.parse ⟨false⟩ source).map Parsed.materialize := by
  cases hdoc : Document.ofString source with
  | error e =>
    rw [parse, parse, hdoc]
    rfl
  | ok document =>
    have hread (reader : Reader) : reader.parse source = .ok (.ofList (reader.graphs document)) :=
      parse_eq_ok_iff.2 ⟨document, hdoc, rfl⟩
    have hstrict := h _ (hread ⟨false⟩)
    rw [Parsed.toList_ofList] at hstrict
    have hgraphs : Reader.graphs ⟨true⟩ document =
        (Reader.graphs ⟨false⟩ document).map Graph.materialize := by
      rw [graphs, graphs, List.map_map]
      apply List.map_congr_left
      intro d hd
      exact toGraph_materialize (hstrict _ (List.mem_map_of_mem hd))
    rw [hread, hread, Except.map, Parsed.materialize_ofList, ← hgraphs]

/-- The node is declared again behind other defaults, an inner block adds to those around it, and
they are in force at the end of an edge. -/
theorem parse_inherit_eq_materialize_nested :
    ∃ parsed,
      Reader.parse ⟨false⟩ "graph\x7bnode[k];a;\x7bnode[l];b\x7d;node[l];a[b];a--\x7bb\x7d\x7d" =
          .ok parsed ∧
        (∀ g ∈ parsed.toList, g.strict = false) ∧ parsed.materialize ≠ parsed ∧
        Reader.parse ⟨true⟩ "graph\x7bnode[k];a;\x7bnode[l];b\x7d;node[l];a[b];a--\x7bb\x7d\x7d" =
          .ok parsed.materialize := by
  have hk : IsIdent [.word .name "k"] ⟨"k"⟩ := .name (by decide +kernel)
  have hl : IsIdent [.word .name "l"] ⟨"l"⟩ := .name (by decide +kernel)
  have ha : IsIdent [.word .name "a"] ⟨"a"⟩ := .name (by decide +kernel)
  have hb : IsIdent [.word .name "b"] ⟨"b"⟩ := .name (by decide +kernel)
  have hdefaults {x : Lexeme} {name : Ident} (hx : IsIdent [x] name) :
      IsClause (.word .name "node" :: _) (.defaults .node _) :=
    .defaults rfl (IsItem.implicit hx).lists (List.cons_ne_nil _ _)
  have hinner := IsClause.block (.bare (.cons (hdefaults hl)
    (.semicolon (.cons (.node hb .none .nil) .nil))))
  have hend := IsBlock.bare (.cons (.node hb .none .nil) .nil)
  have hedge := IsClause.edges (.node ha .none) .line (.block hend) .nil .nil
  have hclauses := IsClauses.cons (hdefaults hk) (.semicolon (.cons (.node ha .none .nil)
    (.semicolon (.cons hinner (.semicolon (.cons (hdefaults hl) (.semicolon
      (.cons (.node ha .none (IsItem.implicit hb).lists) (.semicolon (.cons hedge .nil))))))))))
  have hdoc : IsDeclaration _ ⟨false, .graph, none, _⟩ :=
    .intro .absent (keyword?_text .graph) .none hclauses
  have hread : Reader.parse ⟨false⟩
      "graph\x7bnode[k];a;\x7bnode[l];b\x7d;node[l];a[b];a--\x7bb\x7d\x7d" = .ok _ :=
    parse_of_lexemes (by decide +kernel) hdoc
  refine ⟨_, hread, by decide +kernel, by decide +kernel, ?_⟩
  rw [parse_inherit_eq_materialize, hread]
  · rfl
  · intro parsed h
    rw [hread] at h
    cases h
    decide +kernel

end Reader

end DotGraph
