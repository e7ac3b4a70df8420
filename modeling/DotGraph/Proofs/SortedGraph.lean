import DotGraph.Proofs.MergedEdges
import DotGraph.Proofs.RoundTrip
import DotGraph.Proofs.SortedAttributes
import DotGraph.Proofs.StrictEdges

/-!
# Sorted graphs

A graph with the attributes of every statement in the order of their names. A printer that sorts
writes the same text for graphs that are sorted alike, and the text describes, where edges are not
merged, a graph that is sorted like the one it was written for.
-/

namespace DotGraph

mutual

def Statement.sorted : Statement → Statement
  | .node n => .node { n with attributes := n.attributes.sorted }
  | .edge e => .edge e.sorted
  | .subgraph g => .subgraph g.sorted
  | .defaults d => .defaults { d with attributes := d.attributes.sorted }
termination_by structural s => s

def Edge.sorted : Edge → Edge
  | ⟨source, destination, attributes⟩ => ⟨source.sorted, destination.sorted, attributes.sorted⟩
termination_by structural e => e

def Endpoint.sorted : Endpoint → Endpoint
  | .node name anchor => .node name anchor
  | .subgraph g => .subgraph g.sorted
termination_by structural e => e

/-- The container with all attributes sorted, at every depth. -/
def Subgraph.sorted : Subgraph → Subgraph
  | ⟨name, attributes, statements⟩ => ⟨name, attributes.sorted, Statement.sortAll statements⟩
termination_by structural g => g

def Statement.sortAll : List Statement → List Statement
  | [] => []
  | s :: ss => s.sorted :: Statement.sortAll ss
termination_by structural ss => ss

end

/-! ### The text -/

section Text

variable {p : Printer} (hp : p.sortAttributes = true)
include hp

namespace Printer

lemma ordered_sorted (a : Attributes) : p.ordered a.sorted = p.ordered a := by
  rw [ordered_of_sorts hp, ordered_of_sorts hp, a.sorted_sorted]

lemma attributeList_sorted (a : Attributes) : p.attributeList a.sorted = p.attributeList a := by
  rw [attributeList, attributeList, ordered_sorted hp]

lemma attributeSuffix_sorted (a : Attributes) :
    p.attributeSuffix a.sorted = p.attributeSuffix a := by
  rw [attributeSuffix, attributeSuffix, attributeList_sorted hp, a.isEmpty_sorted]

lemma node_sorted (n : Node) :
    p.node { n with attributes := n.attributes.sorted } = p.node n := by
  simp only [node, attributeSuffix_sorted hp, Attributes.isEmpty_sorted]

lemma defaults_sorted (d : Defaults) :
    p.defaults { d with attributes := d.attributes.sorted } = p.defaults d := by
  simp only [defaults, attributeList_sorted hp]

lemma attributeLines_sorted (depth : Nat) (a : Attributes) :
    p.attributeLines depth a.sorted = p.attributeLines depth a := by
  rw [attributeLines, attributeLines, ordered_sorted hp]

end Printer

end Text

namespace Printer

variable {p : Printer} (kind : GraphKind)

mutual

lemma lines_sortAll (hp : p.sortAttributes = true) (depth : Nat) (earlier earlier' : List Edge) :
    (ss : List Statement) → p.lines kind false depth earlier (Statement.sortAll ss) =
      p.lines kind false depth earlier' ss
  | [] => rfl
  | .node n :: ss => by
    rw [Statement.sortAll, Statement.sorted, lines, lines, node_sorted hp,
      lines_sortAll hp depth earlier earlier' ss]
  | .defaults d :: ss => by
    rw [Statement.sortAll, Statement.sorted, lines, lines, defaults_sorted hp,
      lines_sortAll hp depth earlier earlier' ss]
  | .subgraph g :: ss => by
    rw [Statement.sortAll, Statement.sorted, lines, lines, block_sorted hp (depth + 1) g,
      lines_sortAll hp depth earlier earlier' ss]
  | .edge e :: ss => by
    rw [Statement.sortAll, Statement.sorted, lines, lines, Bool.false_and, Bool.false_and,
      if_neg Bool.false_ne_true, if_neg Bool.false_ne_true, edge_sorted hp e,
      lines_sortAll hp depth (e.sorted :: earlier) (e :: earlier') ss]
termination_by structural ss => ss

lemma edge_sorted (hp : p.sortAttributes = true) : (e : Edge) → p.edge kind e.sorted = p.edge kind e
  | ⟨source, destination, attributes⟩ => by
    rw [Edge.sorted, edge, edge, endpoint_sorted hp source, endpoint_sorted hp destination,
      attributeSuffix_sorted hp]
termination_by structural e => e

lemma endpoint_sorted (hp : p.sortAttributes = true) :
    (e : Endpoint) → p.endpoint kind e.sorted = p.endpoint kind e
  | .node _ _ => rfl
  | .subgraph g => by rw [Endpoint.sorted, endpoint, endpoint, block_sorted hp 1 g]
termination_by structural e => e

lemma block_sorted (hp : p.sortAttributes = true) (depth : Nat) :
    (g : Subgraph) → p.block kind false depth g.sorted = p.block kind false depth g
  | ⟨name, attributes, statements⟩ => by
    rw [Subgraph.sorted, block, block, attributeLines_sorted hp,
      lines_sortAll hp depth [] [] statements]
termination_by structural g => g

end

omit kind in
/-- The text of a sorted graph is that of the graph. -/
theorem graph_sorted (hp : p.sortAttributes = true) (g : Graph) (hs : g.simplify = false) :
    p.graph { g with body := g.body.sorted } = p.graph g := by
  obtain ⟨kind, strict, simplify, name, attributes, statements⟩ := g
  cases hs
  have hattributes := attributeLines_sorted hp 1 attributes
  have hlines := lines_sortAll kind hp 1 [] [] statements
  conv_rhs => rw [graph, ← hlines]
  conv_rhs => rw [Graph.attributes, ← hattributes]
  rfl

end Printer

/-! ### Edges -/

mutual

lemma Statement.edgeCount_sorted : (s : Statement) → s.sorted.edgeCount = s.edgeCount
  | .node _ => rfl
  | .edge e => Edge.edgeCount_sorted e
  | .subgraph g => Subgraph.edgeCount_sorted g
  | .defaults _ => rfl
termination_by structural s => s

lemma Edge.edgeCount_sorted : (e : Edge) → e.sorted.edgeCount = e.edgeCount
  | ⟨source, destination, _⟩ => by
    rw [Edge.sorted, Edge.edgeCount, Edge.edgeCount, Endpoint.edgeCount_sorted source,
      Endpoint.edgeCount_sorted destination]
termination_by structural e => e

lemma Endpoint.edgeCount_sorted : (e : Endpoint) → e.sorted.edgeCount = e.edgeCount
  | .node _ _ => rfl
  | .subgraph g => Subgraph.edgeCount_sorted g
termination_by structural e => e

lemma Subgraph.edgeCount_sorted : (g : Subgraph) → g.sorted.edgeCount = g.edgeCount
  | ⟨_, _, statements⟩ => Statement.countEdges_sortAll statements
termination_by structural g => g

lemma Statement.countEdges_sortAll : (ss : List Statement) →
    Statement.countEdges (Statement.sortAll ss) = Statement.countEdges ss
  | [] => rfl
  | s :: ss => by
    rw [Statement.sortAll, Statement.countEdges, Statement.countEdges,
      Statement.edgeCount_sorted s, Statement.countEdges_sortAll ss]
termination_by structural ss => ss

end

section Distinct

variable {directed : Bool}

lemma Edge.sameEndpoints_sorted {e f : Edge} (h : e.sameEndpoints directed f = true) :
    e.sorted.sameEndpoints directed f.sorted = true := by
  obtain ⟨source, destination, attributes⟩ := e
  obtain ⟨source', destination', attributes'⟩ := f
  rw [sameEndpoints_iff] at h ⊢
  rcases h with ⟨hs, hd⟩ | ⟨hline, hs, hd⟩
  · exact .inl ⟨congrArg Endpoint.sorted hs, congrArg Endpoint.sorted hd⟩
  · exact .inr ⟨hline, congrArg Endpoint.sorted hs, congrArg Endpoint.sorted hd⟩

lemma Statement.edges_sortAll (ss : List Statement) :
    (sortAll ss).filterMap edge? = (ss.filterMap edge?).map Edge.sorted := by
  induction ss with
  | nil => rfl
  | cons s ss ih =>
    cases s with
    | node | subgraph | defaults => exact ih
    | edge e => exact congrArg (e.sorted :: ·) ih

lemma Subgraph.HasDistinctEdges.of_sorted {g : Subgraph} (h : g.sorted.HasDistinctEdges directed) :
    g.HasDistinctEdges directed := by
  obtain ⟨name, attributes, statements⟩ := g
  rw [sorted, HasDistinctEdges, edges, Statement.edges_sortAll, List.pairwise_map] at h
  refine h.imp fun hne => ?_
  rw [← Bool.not_eq_true] at hne ⊢
  exact fun hsame => hne (Edge.sameEndpoints_sorted hsame)

mutual

lemma Statement.Everywhere.of_sorted : (s : Statement) →
    s.sorted.Everywhere (Subgraph.HasDistinctEdges directed) →
    s.Everywhere (Subgraph.HasDistinctEdges directed)
  | .node _, _ => trivial
  | .edge e, h => Edge.Everywhere.of_sorted e h
  | .subgraph g, h => Subgraph.Everywhere.of_sorted g h
  | .defaults _, _ => trivial
termination_by structural s => s

lemma Edge.Everywhere.of_sorted : (e : Edge) →
    e.sorted.Everywhere (Subgraph.HasDistinctEdges directed) →
    e.Everywhere (Subgraph.HasDistinctEdges directed)
  | ⟨source, destination, _⟩, h =>
    ⟨Endpoint.Everywhere.of_sorted source h.1, Endpoint.Everywhere.of_sorted destination h.2⟩
termination_by structural e => e

lemma Endpoint.Everywhere.of_sorted : (e : Endpoint) →
    e.sorted.Everywhere (Subgraph.HasDistinctEdges directed) →
    e.Everywhere (Subgraph.HasDistinctEdges directed)
  | .node _ _, _ => trivial
  | .subgraph g, h => Subgraph.Everywhere.of_sorted g h
termination_by structural e => e

lemma Subgraph.Everywhere.of_sorted : (g : Subgraph) →
    g.sorted.Everywhere (Subgraph.HasDistinctEdges directed) →
    g.Everywhere (Subgraph.HasDistinctEdges directed)
  | ⟨name, attributes, statements⟩, h =>
    ⟨.of_sorted (g := ⟨name, attributes, statements⟩) h.1,
      Statement.AllEverywhere.of_sorted statements h.2⟩
termination_by structural g => g

lemma Statement.AllEverywhere.of_sorted : (ss : List Statement) →
    Statement.AllEverywhere (Subgraph.HasDistinctEdges directed) (Statement.sortAll ss) →
    Statement.AllEverywhere (Subgraph.HasDistinctEdges directed) ss
  | [], _ => trivial
  | s :: ss, h =>
    ⟨Statement.Everywhere.of_sorted s h.1, Statement.AllEverywhere.of_sorted ss h.2⟩
termination_by structural ss => ss

end

end Distinct

/-! ### Reading the text -/

namespace Scope

def sorted (scope : Scope) : Scope := ⟨scope.node.sorted, scope.edge.sorted⟩

/-- Scopes that are sorted alike stay so behind defaults that are sorted alike. -/
lemma sorted_extend {now scope : Scope} (h : now.sorted = scope.sorted) (kind : ElementKind)
    (a : Attributes) : (now.extend kind a.sorted).sorted = (scope.extend kind a).sorted := by
  obtain ⟨hnode, hedge⟩ : now.node.sorted = scope.node.sorted ∧
      now.edge.sorted = scope.edge.sorted := by
    simpa [sorted] using h
  cases kind with
  | node =>
    rw [sorted, extend, ← Attributes.sorted_merge, hnode, a.sorted_sorted,
      Attributes.sorted_merge, hedge]
    rfl
  | edge =>
    rw [sorted, extend, ← Attributes.sorted_merge, hedge, a.sorted_sorted,
      Attributes.sorted_merge, hnode]
    rfl

end Scope

section Read

variable {p : Printer} {rules : Rules}

lemma ofItems_ordered_of_sorts (hp : p.sortAttributes = true) (a : Attributes) :
    Attributes.ofItems (p.ordered a) = a.sorted := by
  rw [Printer.ordered_of_sorts hp, Attributes.ofItems_entries]

lemma applyAll_attributes_of_sorts (hp : p.sortAttributes = true) (scope : Scope)
    (name : Option Ident) (a : Attributes) (clauses : List Clause) :
    Clause.applyAll rules scope (.empty name)
        ((p.ordered a).map Printer.attributeClause ++ clauses) =
      Clause.applyAll rules scope ⟨name, a.sorted, []⟩ clauses := by
  have hall : a.sorted.entries.foldl (fun acc e => acc.set e.1 e.2) Attributes.empty = a.sorted :=
    a.sorted.empty_merge
  rw [Subgraph.empty, applyAll_attributeClauses, Printer.ordered_of_sorts hp, hall]

/-- Defaults that the attributes hold already change nothing but the order, sorted or not. -/
lemma Attributes.Absorbs.sorted_merge {a b c : Attributes} (h : a.Absorbs b)
    (hc : c.sorted = b.sorted) : (c.merge a.sorted).sorted = a.sorted := by
  rw [← c.sorted_merge, hc, a.sorted_sorted, b.sorted_merge, h]

lemma Rules.sorted_inherited (rules : Rules) {a b : Attributes} (h : a.sorted = b.sorted) :
    (rules.loose.inherited a).sorted = (rules.inherited b).sorted := by
  have hloose : rules.loose.inherited a = rules.inherited a := rfl
  rw [hloose, inherited, inherited]
  split
  · exact h
  · rfl

/-- A statement can be exchanged for one that declares the same node, if any. -/
lemma Subgraph.HasDistinctNodes.exchange {g : Subgraph} {s t : Statement} {ss : List Statement}
    (h : (g.extend (s :: ss)).HasDistinctNodes)
    (ht : t.node?.map Node.name = s.node?.map Node.name) :
    ((g.push t).extend ss).HasDistinctNodes := by
  have hsplit : (g.extend (s :: ss)).statements = g.statements ++ s :: ss := rfl
  have hexchanged := h.replace hsplit ht
  rw [extend_push]
  exact hexchanged

/-- Where edges may repeat, the clauses append statements that are sorted like these. -/
def AppendSorted (rules : Rules) (now : Scope) (g : Subgraph) (clauses : List Clause)
    (ss : List Statement) : Prop :=
  ∃ tt, Clause.applyAll rules.loose now g clauses = g.extend tt ∧
    Statement.sortAll tt = Statement.sortAll ss

lemma AppendSorted.cons {now next : Scope} {g : Subgraph} {clause : Clause}
    {clauses : List Clause} {s t : Statement} {ss : List Statement}
    (happly : clause.apply rules.loose now g = (next, g.push t)) (hsort : t.sorted = s.sorted)
    (h : AppendSorted rules next (g.push t) clauses ss) :
    AppendSorted rules now g (clause :: clauses) (s :: ss) := by
  obtain ⟨tt, htt, hrest⟩ := h
  refine ⟨t :: tt, ?_, ?_⟩
  · rw [Clause.applyAll, happly]
    exact htt.trans (g.extend_push t tt)
  · rw [Statement.sortAll, Statement.sortAll, hsort, hrest]

mutual

/-- The scopes that are in force on reading may hold their defaults in other orders. -/
lemma applyAll_sorted (hp : p.sortAttributes = true) :
    (ss : List Statement) → (now scope : Scope) → (g : Subgraph) → now.sorted = scope.sorted →
    Statement.AllEverywhere Subgraph.HasDistinctNodes ss → Statement.AllSettled rules scope ss →
    (g.extend ss).HasDistinctNodes → AppendSorted rules now g (p.clauses ss) ss
  | [], now, scope, g, _, _, _, _ =>
    ⟨[], by rw [Printer.clauses, Clause.applyAll, Subgraph.extend_nil], rfl⟩
  | .node n :: ss, now, scope, g, hnow, he, hs, hn => by
    have hnew := Subgraph.new_of_hasDistinctNodes hn
    have hinherited := rules.sorted_inherited (congrArg Scope.node hnow)
    have happly : (p.statementClause (.node n)).apply rules.loose now g =
        (now, g.addNode ⟨n.name, n.anchor,
          (rules.loose.inherited now.node).merge n.attributes.sorted⟩) := by
      rw [Printer.statementClause, Clause.apply, ofItems_ordered_of_sorts hp,
        Subgraph.declareNode_of_new hnew]
    refine AppendSorted.cons happly ?_
      (applyAll_sorted hp ss now scope _ hnow he.2 hs.2 (hn.exchange rfl))
    rw [Statement.sorted, Statement.sorted, hs.1.sorted_merge hinherited]
  | .defaults d :: ss, now, scope, g, hnow, he, hs, hn => by
    have hnext := Scope.sorted_extend hnow d.kind d.attributes
    have happly : (p.statementClause (.defaults d)).apply rules.loose now g =
        (now.extend d.kind d.attributes.sorted,
          g.addDefaults ⟨d.kind, d.attributes.sorted⟩) := by
      rw [Printer.statementClause, Clause.apply, ofItems_ordered_of_sorts hp]
    refine AppendSorted.cons happly ?_
      (applyAll_sorted hp ss _ _ _ hnext he.2 hs.2 (hn.exchange rfl))
    rw [Statement.sorted, Statement.sorted, d.attributes.sorted_sorted]
  | .subgraph b :: ss, now, scope, g, hnow, he, hs, hn => by
    have hb := sorted_subgraph hp b now scope hnow he.1 hs.1
    have happly : (p.statementClause (.subgraph b)).apply rules.loose now g =
        (now, g.addSubgraph ((p.asBlock b).subgraph rules.loose now)) := by
      rw [Printer.statementClause, Clause.apply]
    exact AppendSorted.cons happly (congrArg Statement.subgraph hb)
      (applyAll_sorted hp ss now scope _ hnow he.2 hs.2 (hn.exchange rfl))
  | .edge e :: ss, now, scope, g, hnow, he, hs, hn => by
    obtain ⟨f, happly, hf⟩ := apply_edgeClause_sorted hp e now scope g hnow he.1 hs.1
    exact AppendSorted.cons happly (congrArg Statement.edge hf)
      (applyAll_sorted hp ss now scope _ hnow he.2 hs.2 (hn.exchange rfl))
termination_by structural ss => ss

lemma apply_edgeClause_sorted (hp : p.sortAttributes = true) :
    (e : Edge) → (now scope : Scope) → (g : Subgraph) → now.sorted = scope.sorted →
    e.Everywhere Subgraph.HasDistinctNodes → e.Settled rules scope →
    ∃ f, (p.edgeClause e).apply rules.loose now g = (now, g.addEdge f) ∧ f.sorted = e.sorted
  | ⟨source, destination, attributes⟩, now, scope, g, hnow, he, hs => by
    have hsource := sorted_endpoint hp source now scope hnow he.1 hs.1
    have hdestination := sorted_endpoint hp destination now scope hnow he.2 hs.2.1
    have hinherited := rules.sorted_inherited (congrArg Scope.edge hnow)
    refine ⟨⟨(p.terminal source).endpoint rules.loose now,
      (p.terminal destination).endpoint rules.loose now,
      (rules.loose.inherited now.edge).merge attributes.sorted⟩, ?_, ?_⟩
    · rw [Printer.edgeClause, Clause.apply, ofItems_ordered_of_sorts hp]
      rfl
    · rw [Edge.sorted, Edge.sorted, hsource, hdestination, hs.2.2.sorted_merge hinherited]
termination_by structural e => e

lemma sorted_endpoint (hp : p.sortAttributes = true) :
    (e : Endpoint) → (now scope : Scope) → now.sorted = scope.sorted →
    e.Everywhere Subgraph.HasDistinctNodes → e.Settled rules scope →
    ((p.terminal e).endpoint rules.loose now).sorted = e.sorted
  | .node _ _, _, _, _, _, _ => rfl
  | .subgraph g, now, scope, hnow, he, hs => by
    rw [Printer.terminal, Terminal.endpoint, Endpoint.sorted, Endpoint.sorted,
      sorted_subgraph hp g now scope hnow he hs]
termination_by structural e => e

/-- The block that a sorting printer writes describes a container that is sorted like its own. -/
lemma sorted_subgraph (hp : p.sortAttributes = true) :
    (g : Subgraph) → (now scope : Scope) → now.sorted = scope.sorted →
    g.Everywhere Subgraph.HasDistinctNodes → g.Settled rules scope →
    ((p.asBlock g).subgraph rules.loose now).sorted = g.sorted
  | ⟨name, attributes, statements⟩, now, scope, hnow, he, hs => by
    obtain ⟨tt, htt, hsort⟩ :=
      applyAll_sorted hp statements now scope ⟨name, attributes.sorted, []⟩ hnow he.2 hs he.1
    rw [Printer.asBlock, Block.subgraph, applyAll_attributes_of_sorts hp, htt, Subgraph.extend,
      List.nil_append, Subgraph.sorted, Subgraph.sorted, attributes.sorted_sorted, hsort]
termination_by structural g => g

end

end Read

end DotGraph
