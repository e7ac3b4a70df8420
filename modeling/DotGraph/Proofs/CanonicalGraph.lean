import DotGraph.Proofs.CanonicalIdent
import DotGraph.Proofs.Containers

/-!
# Canonical graphs

What is asked of every container of a graph, the graph itself, nested subgraphs and the blocks
that edges end in alike: its nodes have different names and, where the graph is strict, its edges
have different endpoints. In a canonical graph the identifiers are canonical as well.
-/

namespace DotGraph

/-! ### Containers at every depth -/

mutual

/-- Whether `P` holds of the containers in a statement, at every depth. -/
def Statement.Everywhere (P : Subgraph → Prop) : Statement → Prop
  | .node _ => True
  | .edge e => e.Everywhere P
  | .subgraph g => g.Everywhere P
  | .defaults _ => True
termination_by structural s => s

def Edge.Everywhere (P : Subgraph → Prop) : Edge → Prop
  | ⟨source, destination, _⟩ => source.Everywhere P ∧ destination.Everywhere P
termination_by structural e => e

def Endpoint.Everywhere (P : Subgraph → Prop) : Endpoint → Prop
  | .node _ _ => True
  | .subgraph g => g.Everywhere P
termination_by structural e => e

def Subgraph.Everywhere (P : Subgraph → Prop) : Subgraph → Prop
  | ⟨name, attributes, statements⟩ =>
    P ⟨name, attributes, statements⟩ ∧ Statement.AllEverywhere P statements
termination_by structural g => g

def Statement.AllEverywhere (P : Subgraph → Prop) : List Statement → Prop
  | [] => True
  | s :: ss => s.Everywhere P ∧ Statement.AllEverywhere P ss
termination_by structural ss => ss

end

variable {P : Subgraph → Prop}

lemma Statement.allEverywhere_iff {ss : List Statement} :
    Statement.AllEverywhere P ss ↔ ∀ s ∈ ss, s.Everywhere P := by
  induction ss with
  | nil => simp [Statement.AllEverywhere]
  | cons s ss ih => simp [Statement.AllEverywhere, ih]

lemma Subgraph.everywhere_iff {g : Subgraph} :
    g.Everywhere P ↔ P g ∧ ∀ s ∈ g.statements, s.Everywhere P := by
  obtain ⟨name, attributes, statements⟩ := g
  rw [Subgraph.Everywhere, Statement.allEverywhere_iff]

section Mono

variable {Q : Subgraph → Prop}

mutual

lemma Statement.Everywhere.mono (h : ∀ g, P g → Q g) :
    (s : Statement) → s.Everywhere P → s.Everywhere Q
  | .node _, _ => trivial
  | .edge e, hs => Edge.Everywhere.mono h e hs
  | .subgraph g, hs => Subgraph.Everywhere.mono h g hs
  | .defaults _, _ => trivial
termination_by structural s => s

lemma Edge.Everywhere.mono (h : ∀ g, P g → Q g) :
    (e : Edge) → e.Everywhere P → e.Everywhere Q
  | ⟨source, destination, _⟩, he =>
    ⟨Endpoint.Everywhere.mono h source he.1, Endpoint.Everywhere.mono h destination he.2⟩
termination_by structural e => e

lemma Endpoint.Everywhere.mono (h : ∀ g, P g → Q g) :
    (e : Endpoint) → e.Everywhere P → e.Everywhere Q
  | .node _ _, _ => trivial
  | .subgraph g, he => Subgraph.Everywhere.mono h g he
termination_by structural e => e

lemma Subgraph.Everywhere.mono (h : ∀ g, P g → Q g) :
    (g : Subgraph) → g.Everywhere P → g.Everywhere Q
  | ⟨name, attributes, statements⟩, hg =>
    ⟨h ⟨name, attributes, statements⟩ hg.1, Statement.AllEverywhere.mono h statements hg.2⟩
termination_by structural g => g

lemma Statement.AllEverywhere.mono (h : ∀ g, P g → Q g) :
    (ss : List Statement) → Statement.AllEverywhere P ss → Statement.AllEverywhere Q ss
  | [], _ => trivial
  | s :: ss, hs => ⟨Statement.Everywhere.mono h s hs.1, Statement.AllEverywhere.mono h ss hs.2⟩
termination_by structural ss => ss

end

end Mono

/-! ### Proper containers -/

section Idents

variable (W : Ident → Prop)

/-- A text behind the colon of a name: one identifier, or two with a colon between. -/
def IsAnchorText (anchor : String) : Prop :=
  (∃ x : Ident, W x ∧ anchor = x.text) ∨
    ∃ x y : Ident, W x ∧ W y ∧ anchor = x.text ++ ":" ++ y.text

/-- `W` holds of the names and of the values that are there. -/
def Attributes.AllIdents (a : Attributes) : Prop :=
  ∀ e ∈ a.entries, W e.1 ∧ ∀ value ∈ e.2.ident?, W value

instance [DecidablePred W] (a : Attributes) : Decidable (a.AllIdents W) :=
  inferInstanceAs (Decidable (∀ e ∈ a.entries, W e.1 ∧ ∀ value ∈ e.2.ident?, W value))

def Node.AllIdents (n : Node) : Prop :=
  W n.name ∧ (∀ anchor ∈ n.anchor, IsAnchorText W anchor) ∧ n.attributes.AllIdents W

/-- `W` holds of the identifiers of an endpoint, those in a block left aside. -/
def Endpoint.AllIdents : Endpoint → Prop
  | .node name anchor => W name ∧ ∀ text ∈ anchor, IsAnchorText W text
  | .subgraph _ => True

/-- `W` holds of the identifiers of a statement, those in its blocks left aside. -/
def Statement.AllIdents : Statement → Prop
  | .node n => n.AllIdents W
  | .edge e => e.source.AllIdents W ∧ e.destination.AllIdents W ∧ e.attributes.AllIdents W
  | .subgraph _ => True
  | .defaults d => d.attributes.AllIdents W

end Idents

/-- The edge as far as its endpoints go. -/
def Edge.bare (e : Edge) : Edge := { e with attributes := .empty }

namespace Subgraph

def HasDistinctNodes (g : Subgraph) : Prop := (g.nodes.map Node.name).Nodup

def HasDistinctEdges (directed : Bool) (g : Subgraph) : Prop :=
  g.edges.Pairwise fun e f => e.sameEndpoints directed f = false

lemma hasDistinctNodes_iff {g : Subgraph} :
    g.HasDistinctNodes ↔ (g.statements.filterMap fun s => s.node?.map Node.name).Nodup := by
  rw [HasDistinctNodes, nodes, List.map_filterMap]

lemma hasDistinctEdges_iff {directed : Bool} {g : Subgraph} :
    g.HasDistinctEdges directed ↔ (g.statements.filterMap fun s => s.edge?.map Edge.bare).Pairwise
      fun e f => e.sameEndpoints directed f = false := by
  rw [HasDistinctEdges, edges, ← List.map_filterMap, List.pairwise_map]
  rfl

lemma HasDistinctNodes.push {g : Subgraph} {s : Statement} (h : g.HasDistinctNodes)
    (hs : ∀ n ∈ s.node?, ∀ m ∈ g.nodes, m.name ≠ n.name) : (g.push s).HasDistinctNodes := by
  rw [HasDistinctNodes, nodes_push, List.map_append, List.nodup_append]
  refine ⟨h, ?_, ?_⟩
  · cases s.node? <;> simp
  · intro x hx y hy
    obtain ⟨m, hm, rfl⟩ := List.mem_map.1 hx
    obtain ⟨n, hn, rfl⟩ := List.mem_map.1 hy
    exact hs n (Option.mem_toList.1 hn) m hm

lemma HasDistinctEdges.push {directed : Bool} {g : Subgraph} {s : Statement}
    (h : g.HasDistinctEdges directed)
    (hs : ∀ e ∈ s.edge?, ∀ f ∈ g.edges, f.sameEndpoints directed e = false) :
    (g.push s).HasDistinctEdges directed := by
  rw [HasDistinctEdges, edges_push, List.pairwise_append]
  refine ⟨h, ?_, ?_⟩
  · cases s.edge? <;> simp
  · intro f hf e he
    exact hs e (Option.mem_toList.1 he) f hf

section Replace

variable {g : Subgraph} {as bs : List Statement} {s t : Statement}
  (hg : g.statements = as ++ s :: bs)

include hg

lemma HasDistinctNodes.replace (h : g.HasDistinctNodes)
    (ht : t.node?.map Node.name = s.node?.map Node.name) :
    HasDistinctNodes { g with statements := as ++ t :: bs } := by
  rw [hasDistinctNodes_iff, hg] at h
  rw [hasDistinctNodes_iff]
  simpa only [List.filterMap_append, List.filterMap_cons, ht] using h

lemma HasDistinctEdges.replace {directed : Bool} (h : g.HasDistinctEdges directed)
    (ht : t.edge?.map Edge.bare = s.edge?.map Edge.bare) :
    HasDistinctEdges directed { g with statements := as ++ t :: bs } := by
  rw [hasDistinctEdges_iff, hg] at h
  rw [hasDistinctEdges_iff]
  simpa only [List.filterMap_append, List.filterMap_cons, ht] using h

end Replace

/-- A container with nothing left to merge, whose identifiers satisfy `W`. -/
structure IsProper (W : Ident → Prop) (strict directed : Bool) (g : Subgraph) : Prop where
  name : ∀ x ∈ g.name, W x
  attributes : g.attributes.AllIdents W
  statements : ∀ s ∈ g.statements, s.AllIdents W
  nodes : g.HasDistinctNodes
  edges : strict = true → g.HasDistinctEdges directed

/-- In graphs that are not strict edges may repeat. -/
lemma IsProper.loose {W : Ident → Prop} {strict directed : Bool} {g : Subgraph}
    (h : g.IsProper W strict directed) : g.IsProper W false directed :=
  { h with edges := fun hstrict => absurd hstrict Bool.false_ne_true }

end Subgraph

namespace Graph

/-- Every container of the graph is proper, and all identifiers are canonical. -/
def IsCanonical (g : Graph) : Prop :=
  g.body.Everywhere (Subgraph.IsProper Ident.IsCanonical g.strict g.kind.isDirected)

/-- The graph is canonical except that edges may repeat, be it strict or not. -/
def IsWritable (g : Graph) : Prop :=
  g.body.Everywhere (Subgraph.IsProper Ident.IsCanonical false g.kind.isDirected)

lemma IsCanonical.isWritable {g : Graph} (h : g.IsCanonical) : g.IsWritable :=
  Subgraph.Everywhere.mono (fun _ hb => hb.loose) g.body h

end Graph

end DotGraph
