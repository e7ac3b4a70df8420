import DotGraph.Proofs.Containers
import DotGraph.Proofs.PrintedGraph
import DotGraph.Proofs.Settled

/-!
# Graphs from their clauses

Working off the clauses of a graph gives the graph back. Each clause appends its own statement:
in a proper container no node and no edge meets an earlier one that it would merge into, and in a
settled one no default changes what is declared.
-/

namespace DotGraph

namespace Subgraph

/-- A node of a new name is appended. -/
lemma declareNode_of_new {g : Subgraph} {name : Ident} (h : ∀ m ∈ g.nodes, m.name ≠ name)
    (anchor : Option String) (inherited explicit : Attributes) :
    g.declareNode name anchor inherited explicit =
      g.addNode ⟨name, anchor, inherited.merge explicit⟩ := by
  rw [declareNode, modifyNode?, modifyFirst?_eq_none_iff.2]
  · rfl
  · intro s hs
    cases s with
    | node m =>
      have hne : m.name.text ≠ name.text := by
        intro ht
        exact h m (mem_nodes.2 hs) (Ident.eq_of_text ht)
      simpa [Statement.isNodeNamed, Statement.node?] using hne
    | edge | subgraph | defaults => rfl

/-- An edge between new endpoints is appended, and in graphs that are not strict any edge. -/
lemma connect_of_new {g : Subgraph} {rules : Rules} {e : Edge}
    (h : rules.strict = true → ∀ f ∈ g.edges, f.sameEndpoints rules.directed e = false) :
    g.connect rules e = g.addEdge e := by
  rw [connect]
  split
  · rename_i hs
    exact mergeEdge_of_new (h hs)
  · rfl

/-- The container with further statements. -/
def extend (g : Subgraph) (ss : List Statement) : Subgraph :=
  { g with statements := g.statements ++ ss }

lemma extend_nil (g : Subgraph) : g.extend [] = g := by
  obtain ⟨name, attributes, statements⟩ := g
  rw [extend, List.append_nil]

lemma extend_push (g : Subgraph) (s : Statement) (ss : List Statement) :
    (g.push s).extend ss = g.extend (s :: ss) := by
  simp [extend, push]

lemma new_of_hasDistinctNodes {g : Subgraph} {n : Node} {ss : List Statement}
    (h : (g.extend (.node n :: ss)).HasDistinctNodes) : ∀ m ∈ g.nodes, m.name ≠ n.name := by
  intro m hm
  simp only [HasDistinctNodes, nodes, extend, List.filterMap_append, List.map_append] at h
  apply (List.nodup_append.1 h).2.2 m.name (List.mem_map_of_mem hm) n.name
  simp [Statement.node?]

lemma new_of_hasDistinctEdges {directed : Bool} {g : Subgraph} {e : Edge} {ss : List Statement}
    (h : (g.extend (.edge e :: ss)).HasDistinctEdges directed) :
    ∀ f ∈ g.edges, f.sameEndpoints directed e = false := by
  intro f hf
  simp only [HasDistinctEdges, edges, extend, List.filterMap_append] at h
  apply (List.pairwise_append.1 h).2.2 f hf e
  simp [Statement.edge?]

end Subgraph

section Rebuild

variable {p : Printer} {rules : Rules} {W : Ident → Prop}

lemma ordered_eq_entries (hp : p.sortAttributes = false) (a : Attributes) :
    p.ordered a = a.entries := by
  rw [Printer.ordered, hp, if_neg Bool.false_ne_true]

lemma ofItems_ordered (hp : p.sortAttributes = false) (a : Attributes) :
    Attributes.ofItems (p.ordered a) = a := by
  rw [ordered_eq_entries hp, Attributes.ofItems_entries]

/-- The clauses of attributes set them one after the other. -/
lemma applyAll_attributeClauses (scope : Scope) (name : Option Ident) (statements : List Statement)
    (clauses : List Clause) (items : List Item) (a : Attributes) :
    Clause.applyAll rules scope ⟨name, a, statements⟩
        (items.map Printer.attributeClause ++ clauses) =
      Clause.applyAll rules scope
        ⟨name, items.foldl (fun acc e => acc.set e.1 e.2) a, statements⟩ clauses := by
  induction items generalizing a with
  | nil => rfl
  | cons e items ih =>
    obtain ⟨key, value⟩ := e
    rw [List.map_cons, List.cons_append, List.foldl_cons, ← ih]
    cases value with
    | text value => rfl
    | implicit =>
      have hset : a.merge (.ofItems [(key, .implicit)]) = a.set key .implicit := rfl
      rw [Printer.attributeClause, Clause.applyAll, Clause.apply, hset]

lemma applyAll_attributes (hp : p.sortAttributes = false) (scope : Scope) (name : Option Ident)
    (a : Attributes) (clauses : List Clause) :
    Clause.applyAll rules scope (.empty name)
        ((p.ordered a).map Printer.attributeClause ++ clauses) =
      Clause.applyAll rules scope ⟨name, a, []⟩ clauses := by
  have hall : a.entries.foldl (fun acc e => acc.set e.1 e.2) Attributes.empty = a := a.empty_merge
  rw [Subgraph.empty, applyAll_attributeClauses, ordered_eq_entries hp, hall]

/-- The containers of a graph that is read under these rules. -/
abbrev Rules.Proper (rules : Rules) (W : Ident → Prop) : Subgraph → Prop :=
  Subgraph.IsProper W rules.strict rules.directed

mutual

/-- The clauses of statements append them to what comes before, given that the whole has nothing
to merge. -/
lemma applyAll_clauses (hp : p.sortAttributes = false) :
    (ss : List Statement) → (scope : Scope) → (g : Subgraph) →
    Statement.AllEverywhere (rules.Proper W) ss → Statement.AllSettled rules scope ss →
    (g.extend ss).HasDistinctNodes →
    (rules.strict = true → (g.extend ss).HasDistinctEdges rules.directed) →
    Clause.applyAll rules scope g (p.clauses ss) = g.extend ss
  | [], scope, g, _, _, _, _ => by
    rw [Printer.clauses, Clause.applyAll, Subgraph.extend_nil]
  | .node n :: ss, scope, g, he, hs, hn, hd => by
    have hnew := Subgraph.new_of_hasDistinctNodes hn
    rw [← Subgraph.extend_push] at hn hd ⊢
    rw [Printer.clauses, Printer.statementClause, Clause.applyAll, Clause.apply,
      ofItems_ordered hp, Subgraph.declareNode_of_new hnew, hs.1]
    exact applyAll_clauses hp ss scope (g.addNode n) he.2 hs.2 hn hd
  | .defaults d :: ss, scope, g, he, hs, hn, hd => by
    rw [← Subgraph.extend_push] at hn hd ⊢
    rw [Printer.clauses, Printer.statementClause, Clause.applyAll, Clause.apply,
      ofItems_ordered hp]
    exact applyAll_clauses hp ss _ (g.addDefaults d) he.2 hs.2 hn hd
  | .subgraph b :: ss, scope, g, he, hs, hn, hd => by
    rw [← Subgraph.extend_push] at hn hd ⊢
    rw [Printer.clauses, Printer.statementClause, Clause.applyAll, Clause.apply,
      subgraph_asBlock hp b scope he.1 hs.1]
    exact applyAll_clauses hp ss scope (g.addSubgraph b) he.2 hs.2 hn hd
  | .edge e :: ss, scope, g, he, hs, hn, hd => by
    have hnew (hstrict : rules.strict = true) := Subgraph.new_of_hasDistinctEdges (hd hstrict)
    rw [← Subgraph.extend_push] at hn hd ⊢
    have happly := apply_edgeClause hp e scope g he.1 hs.1
    rw [Printer.clauses, Printer.statementClause, Clause.applyAll, happly,
      Subgraph.connect_of_new hnew]
    exact applyAll_clauses hp ss scope (g.addEdge e) he.2 hs.2 hn hd
termination_by structural ss => ss

/-- The clause of an edge connects its endpoints. -/
lemma apply_edgeClause (hp : p.sortAttributes = false) :
    (e : Edge) → (scope : Scope) → (g : Subgraph) → e.Everywhere (rules.Proper W) →
    e.Settled rules scope → (p.edgeClause e).apply rules scope g = (scope, g.connect rules e)
  | ⟨source, destination, attributes⟩, scope, g, he, hs => by
    rw [Printer.edgeClause, Clause.apply, ofItems_ordered hp,
      endpoint_terminal hp source scope he.1 hs.1,
      endpoint_terminal hp destination scope he.2 hs.2.1, Terminal.endpoints, hs.2.2,
      Subgraph.connectAll, Subgraph.connectAll]
    simp
termination_by structural e => e

lemma endpoint_terminal (hp : p.sortAttributes = false) :
    (e : Endpoint) → (scope : Scope) → e.Everywhere (rules.Proper W) → e.Settled rules scope →
    (p.terminal e).endpoint rules scope = e
  | .node name anchor, scope, _, _ => rfl
  | .subgraph g, scope, he, hs => by
    rw [Printer.terminal, Terminal.endpoint, subgraph_asBlock hp g scope he hs]
termination_by structural e => e

lemma subgraph_asBlock (hp : p.sortAttributes = false) :
    (g : Subgraph) → (scope : Scope) → g.Everywhere (rules.Proper W) → g.Settled rules scope →
    (p.asBlock g).subgraph rules scope = g
  | ⟨name, attributes, statements⟩, scope, he, hs => by
    rw [Printer.asBlock, Block.subgraph, applyAll_attributes hp]
    exact applyAll_clauses hp statements scope ⟨name, attributes, []⟩ he.2 hs he.1.nodes he.1.edges
termination_by structural g => g

end

end Rebuild

end DotGraph
