import DotGraph.Graph.Edit
import DotGraph.Proofs.RoundTrip

/-!
# Strict graphs from texts

Edges may be added to a graph that is strict, or to one that is declared strict afterwards, whose
text holds every edge as it was added. Reading that text connects the endpoints in the order of the
edges, merging as the strict graph does, so the graphs are the same.
-/

namespace DotGraph

open Grammar

/-- The container with the edges connected in their order. -/
def Subgraph.connectEdges (g : Subgraph) (rules : Rules) (edges : List Edge) : Subgraph :=
  edges.foldl (fun body e => body.connect rules e) g

namespace Graph

/-- A graph to start from, with or without a name. -/
def start (kind : GraphKind) : Option Ident → Graph
  | some name => named name kind
  | none => anonymous kind

/-- The graph with the edges added in their order. -/
def addEdges (g : Graph) (edges : List Edge) : Graph := g.run (edges.map .addEdge)

def setStrict (g : Graph) (strict : Bool) : Graph := { g with strict }

/-- How the text of the graph is read. -/
def rules (reader : Reader) (g : Graph) : Rules :=
  ⟨reader.inheritDefaults, g.strict, g.kind.isDirected⟩

end Graph

/-! ### Edges that are added -/

/-- Where edges may repeat, they are appended as they come. -/
lemma Subgraph.connectEdges_of_loose {rules : Rules} (h : rules.strict = false) (g : Subgraph)
    (edges : List Edge) : g.connectEdges rules edges = g.extend (edges.map .edge) := by
  induction edges generalizing g with
  | nil => exact g.extend_nil.symm
  | cons e edges ih =>
    have hconnect : g.connect rules e = g.addEdge e := by
      rw [Subgraph.connect, h, if_neg Bool.false_ne_true]
    have hstep : g.connectEdges rules (e :: edges) = (g.addEdge e).connectEdges rules edges := by
      rw [← hconnect]
      rfl
    rw [hstep, ih]
    exact g.extend_push (.edge e) (edges.map .edge)

namespace Graph

variable (reader : Reader)

lemma addEdge_eq_connect (g : Graph) (e : Edge) :
    g.addEdge e = g.withBody (g.body.connect (g.rules reader) e) := by
  obtain ⟨kind, strict, simplify, body⟩ := g
  cases strict <;> rfl

lemma addEdges_eq (g : Graph) (edges : List Edge) :
    g.addEdges edges = g.withBody (g.body.connectEdges (g.rules reader) edges) := by
  induction edges generalizing g with
  | nil => rfl
  | cons e edges ih =>
    have hstep : g.addEdges (e :: edges) = (g.addEdge e).addEdges edges := rfl
    rw [hstep, ih, addEdge_eq_connect reader]
    rfl

end Graph

/-! ### Edges that are read -/

section Read

variable {p : Printer} {rules : Rules} {W : Ident → Prop}

/-- The clauses of edges connect their endpoints in the order of the edges. -/
lemma applyAll_edges (hp : p.sortAttributes = false) {scope : Scope} {edges : List Edge}
    (he : ∀ e ∈ edges, e.Everywhere (rules.Proper W)) (hs : ∀ e ∈ edges, e.Settled rules scope)
    (g : Subgraph) :
    Clause.applyAll rules scope g (p.clauses (edges.map .edge)) = g.connectEdges rules edges := by
  induction edges generalizing g with
  | nil => rfl
  | cons e edges ih =>
    rw [List.forall_mem_cons] at he hs
    have happly := apply_edgeClause hp e scope g he.1 hs.1
    rw [List.map_cons, Printer.clauses, Printer.statementClause, Clause.applyAll, happly]
    exact ih he.2 hs.2 (g.connect rules e)

end Read

/-! ### Edges between nodes -/

/-- The endpoint is a node, not a block. -/
def Endpoint.IsNode : Endpoint → Prop
  | .node _ _ => True
  | .subgraph _ => False

/-- An edge between nodes whose identifiers are canonical. -/
structure Edge.IsPlain (e : Edge) : Prop where
  source : e.source.IsNode
  destination : e.destination.IsNode
  idents : (Statement.edge e).AllIdents Ident.IsCanonical

section Plain

variable {P : Subgraph → Prop} {rules : Rules}

lemma Endpoint.IsNode.everywhere {e : Endpoint} (h : e.IsNode) : e.Everywhere P := by
  cases e with
  | node => trivial
  | subgraph => exact h.elim

lemma Endpoint.IsNode.settled {e : Endpoint} (h : e.IsNode) (scope : Scope) :
    e.Settled rules scope := by
  cases e with
  | node => trivial
  | subgraph => exact h.elim

lemma Edge.IsPlain.everywhere {e : Edge} (h : e.IsPlain) : e.Everywhere P := by
  obtain ⟨source, destination, attributes⟩ := e
  exact ⟨h.source.everywhere, h.destination.everywhere⟩

/-- No defaults are in force at the front of a graph. -/
lemma Edge.IsPlain.settled {e : Edge} (h : e.IsPlain) : e.Settled rules {} := by
  have hnone : rules.inherited .empty = .empty := by
    rw [Rules.inherited, ite_self]
  obtain ⟨source, destination, attributes⟩ := e
  rw [Edge.Settled, hnone]
  exact ⟨h.source.settled {}, h.destination.settled {}, attributes.absorbs_empty⟩

lemma allSettled_edges {edges : List Edge} (h : ∀ e ∈ edges, e.IsPlain) :
    Statement.AllSettled rules {} (edges.map .edge) := by
  induction edges with
  | nil => trivial
  | cons e edges ih =>
    rw [List.forall_mem_cons] at h
    exact ⟨h.1.settled, ih h.2⟩

/-- A container that holds nothing but plain edges is proper where edges may repeat. -/
lemma Subgraph.everywhere_extend_edges {directed : Bool} {name : Option Ident} {edges : List Edge}
    (hn : ∀ x ∈ name, x.IsCanonical) (he : ∀ e ∈ edges, e.IsPlain) :
    ((Subgraph.empty name).extend (edges.map .edge)).Everywhere
      (Subgraph.IsProper Ident.IsCanonical false directed) := by
  refine Subgraph.everywhere_iff.2 ⟨⟨hn, ?_, ?_, ?_, ?_⟩, ?_⟩
  · intro entry hentry
    cases hentry
  · intro s hs
    obtain ⟨e, hmem, rfl⟩ := List.mem_map.1 hs
    exact (he e hmem).idents
  · have hnodes : (edges.map Statement.edge).filterMap Statement.node? = [] := by
      simp [List.filterMap_map, Function.comp_def, Statement.node?]
    rw [Subgraph.HasDistinctNodes, Subgraph.nodes]
    exact hnodes ▸ List.nodup_nil
  · intro hstrict
    cases hstrict
  · intro s hs
    obtain ⟨e, hmem, rfl⟩ := List.mem_map.1 hs
    exact (he e hmem).everywhere

end Plain

namespace Graph

variable {kind : GraphKind} {name : Option Ident} {edges : List Edge}

lemma start_eq (kind : GraphKind) (name : Option Ident) :
    start kind name = { kind, body := .empty name } := by
  cases name <;> rfl

/-- Edges that are added to a graph that is not strict are kept as they come. -/
lemma start_addEdges (kind : GraphKind) (name : Option Ident) (edges : List Edge) :
    (start kind name).addEdges edges =
      { kind, body := (Subgraph.empty name).extend (edges.map .edge) } := by
  rw [start_eq, addEdges_eq ⟨false⟩, Subgraph.connectEdges_of_loose rfl]
  rfl

/-- What is declared strict after the edges were added. -/
lemma setStrict_addEdges (kind : GraphKind) (name : Option Ident) (edges : List Edge) :
    ((start kind name).addEdges edges).setStrict true =
      { kind, strict := true, body := (Subgraph.empty name).extend (edges.map .edge) } := by
  rw [start_addEdges]
  rfl

lemma isWritable_setStrict_addEdges (hn : ∀ x ∈ name, x.IsCanonical) (he : ∀ e ∈ edges, e.IsPlain) :
    (((start kind name).addEdges edges).setStrict true).IsWritable := by
  rw [setStrict_addEdges]
  exact Subgraph.everywhere_extend_edges hn he

/-- The text of edges that were added describes the graph in which they are merged. -/
lemma toGraph_setStrict_addEdges {p : Printer} (hs : p.sortAttributes = false) (inherit : Bool)
    (he : ∀ e ∈ edges, e.IsPlain) :
    (p.declaration (((start kind name).addEdges edges).setStrict true)).toGraph inherit =
      ((start kind name).setStrict true).addEdges edges := by
  let rules : Rules := ⟨inherit, true, kind.isDirected⟩
  let body : Subgraph := (Subgraph.empty name).extend (edges.map .edge)
  have hread : Clause.applyAll rules {} (.empty name) (p.asBlock body).clauses =
      (Subgraph.empty name).connectEdges rules edges :=
    calc Clause.applyAll rules {} (.empty name) (p.asBlock body).clauses
      _ = Clause.applyAll rules {} (.empty name) (p.clauses (edges.map .edge)) :=
        applyAll_attributes hs {} name .empty (p.clauses (edges.map .edge))
      _ = (Subgraph.empty name).connectEdges rules edges :=
        applyAll_edges (W := Ident.IsCanonical) hs (fun e hmem => (he e hmem).everywhere)
          (fun e hmem => (he e hmem).settled) (.empty name)
  rw [setStrict_addEdges, addEdges_eq ⟨inherit⟩, start_eq]
  exact congrArg (Graph.mk kind true false) hread

/-- Edges that are added before the graph is declared strict are merged when its text is read, as
they are where the graph is strict from the start. -/
theorem parse_setStrict_addEdges {p : Printer} (hp : p.IsReadable) (hs : p.sortAttributes = false)
    (reader : Reader) (kind : GraphKind) {name : Option Ident} (hn : ∀ x ∈ name, x.IsCanonical)
    {edges : List Edge} (he : ∀ e ∈ edges, e.IsPlain) :
    reader.parse (p.graph (((start kind name).addEdges edges).setStrict true)) =
      .ok (.single (((start kind name).setStrict true).addEdges edges)) := by
  have hsimple : (((start kind name).addEdges edges).setStrict true).simplify = false := by
    rw [setStrict_addEdges]
  rw [IsWritable.parse_graph hp (isWritable_setStrict_addEdges hn he) hsimple,
    toGraph_setStrict_addEdges hs _ he]

/-- Two edges that meet when no direction is kept, and one at a port. -/
def crossed : List Edge :=
  [⟨.node ⟨"a"⟩ none, .node ⟨"b"⟩ none, .ofList [(⟨"k"⟩, .text ⟨"a"⟩)]⟩,
    ⟨.node ⟨"a"⟩ (some "k:b"), .node ⟨"b"⟩ none, .empty⟩,
    ⟨.node ⟨"b"⟩ none, .node ⟨"a"⟩ none, .ofList [(⟨"b"⟩, .implicit), (⟨"k"⟩, .text ⟨"b"⟩)]⟩]

theorem parse_setStrict_addEdges_crossed : (∀ x ∈ some (⟨"a"⟩ : Ident), x.IsCanonical) ∧
    (∀ e ∈ crossed, e.IsPlain) ∧
    (((start .graph (some ⟨"a"⟩)).setStrict true).addEdges crossed).body.edges.length = 2 ∧
    Reader.parse {} (({} : Printer).graph
        (((start .graph (some ⟨"a"⟩)).addEdges crossed).setStrict true)) =
      .ok (.single (((start .graph (some ⟨"a"⟩)).setStrict true).addEdges crossed)) := by
  have ha : Ident.IsCanonical ⟨"a"⟩ := isCanonical_letter (by decide) (by decide) (by decide)
  have hb : Ident.IsCanonical ⟨"b"⟩ := isCanonical_letter (by decide) (by decide) (by decide)
  have hk : Ident.IsCanonical ⟨"k"⟩ := isCanonical_letter (by decide) (by decide) (by decide)
  have hname : ∀ x ∈ some (⟨"a"⟩ : Ident), x.IsCanonical := by simpa using ha
  have hnode {x : Ident} (hx : x.IsCanonical) :
      (Endpoint.node x none).AllIdents Ident.IsCanonical := ⟨hx, by simp⟩
  have hport : (Endpoint.node ⟨"a"⟩ (some "k:b")).AllIdents Ident.IsCanonical := by
    refine ⟨ha, fun text htext => .inr ⟨⟨"k"⟩, ⟨"b"⟩, hk, hb, ?_⟩⟩
    cases htext
    rfl
  have hempty : Attributes.AllIdents Ident.IsCanonical .empty := Attributes.allIdents_empty
  have hfirst : Attributes.AllIdents Ident.IsCanonical (.ofList [(⟨"k"⟩, .text ⟨"a"⟩)]) :=
    hempty.set hk (by simp [AttrValue.ident?, ha])
  have hlast : Attributes.AllIdents Ident.IsCanonical
      (.ofList [(⟨"b"⟩, .implicit), (⟨"k"⟩, .text ⟨"b"⟩)]) :=
    (hempty.set hb (by simp [AttrValue.ident?])).set hk (by simp [AttrValue.ident?, hb])
  have hplain : ∀ e ∈ crossed, e.IsPlain := by
    simp only [crossed, List.forall_mem_cons]
    exact ⟨⟨trivial, trivial, hnode ha, hnode hb, hfirst⟩,
      ⟨trivial, trivial, hport, hnode hb, hempty⟩,
      ⟨trivial, trivial, hnode hb, hnode ha, hlast⟩, by simp⟩
  exact ⟨hname, hplain, by decide +kernel,
    parse_setStrict_addEdges Printer.isReadable_default rfl {} .graph hname hplain⟩

end Graph

end DotGraph
