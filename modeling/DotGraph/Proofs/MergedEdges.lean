import DotGraph.Proofs.ParsedGraph

/-!
# Merged edges

How the reading of a strict graph differs from the reading in which edges may repeat. The two are
the same, or merging has lost edges, and then the loose reading holds, in one container at some
depth, two edges between the same endpoints.
-/

namespace DotGraph

/-! ### Counting edges -/

mutual

def Statement.edgeCount : Statement → Nat
  | .node _ => 0
  | .edge e => e.edgeCount
  | .subgraph g => g.edgeCount
  | .defaults _ => 0
termination_by structural s => s

def Edge.edgeCount : Edge → Nat
  | ⟨source, destination, _⟩ => source.edgeCount + destination.edgeCount + 1
termination_by structural e => e

def Endpoint.edgeCount : Endpoint → Nat
  | .node _ _ => 0
  | .subgraph g => g.edgeCount
termination_by structural e => e

/-- The number of edges at all depths. -/
def Subgraph.edgeCount : Subgraph → Nat
  | ⟨_, _, statements⟩ => Statement.countEdges statements
termination_by structural g => g

def Statement.countEdges : List Statement → Nat
  | [] => 0
  | s :: ss => s.edgeCount + Statement.countEdges ss
termination_by structural ss => ss

end

lemma Statement.countEdges_append (ss tt : List Statement) :
    countEdges (ss ++ tt) = countEdges ss + countEdges tt := by
  induction ss with
  | nil => rw [List.nil_append, countEdges, Nat.zero_add]
  | cons s ss ih => rw [List.cons_append, countEdges, countEdges, ih, Nat.add_assoc]

lemma Edge.edgeCount_pos (e : Edge) : 0 < e.edgeCount := by
  obtain ⟨source, destination, attributes⟩ := e
  exact Nat.succ_pos _

namespace Subgraph

lemma edgeCount_eq (g : Subgraph) : g.edgeCount = Statement.countEdges g.statements := by
  obtain ⟨name, attributes, statements⟩ := g
  rfl

lemma edgeCount_push (g : Subgraph) (s : Statement) :
    (g.push s).edgeCount = g.edgeCount + s.edgeCount := by
  rw [edgeCount_eq, edgeCount_eq, push, Statement.countEdges_append, Statement.countEdges,
    Statement.countEdges, Nat.add_zero]

lemma edgeCount_replace {g : Subgraph} {as bs : List Statement} {s t : Statement}
    (hg : g.statements = as ++ s :: bs) (ht : t.edgeCount = s.edgeCount) :
    edgeCount { g with statements := as ++ t :: bs } = g.edgeCount := by
  rw [edgeCount_eq, edgeCount_eq, hg, Statement.countEdges_append, Statement.countEdges_append,
    Statement.countEdges, Statement.countEdges, ht]

lemma edgeCount_declareNode (g : Subgraph) (name : Ident) (anchor : Option String)
    (inherited explicit : Attributes) :
    (g.declareNode name anchor inherited explicit).edgeCount = g.edgeCount := by
  rcases g.declareNode_cases name anchor inherited explicit with ⟨as, m, bs, hg, heq⟩ | ⟨-, heq⟩
  · rw [heq]
    exact edgeCount_replace hg rfl
  · rw [heq, addNode, edgeCount_push]
    rfl

/-! ### Different endpoints at every depth -/

variable {directed : Bool} {g : Subgraph}

lemma everywhere_of_push {s : Statement}
    (h : (g.push s).Everywhere (HasDistinctEdges directed)) :
    g.Everywhere (HasDistinctEdges directed) ∧ s.Everywhere (HasDistinctEdges directed) := by
  obtain ⟨hd, hss⟩ := everywhere_iff.1 h
  rw [HasDistinctEdges, edges_push, List.pairwise_append] at hd
  refine ⟨everywhere_iff.2 ⟨hd.1, fun t ht => ?_⟩, ?_⟩
  · exact hss t (List.mem_append_left _ ht)
  · exact hss s (List.mem_append_right _ List.mem_cons_self)

lemma edges_declareNode (g : Subgraph) (name : Ident) (anchor : Option String)
    (inherited explicit : Attributes) :
    (g.declareNode name anchor inherited explicit).edges = g.edges := by
  rcases g.declareNode_cases name anchor inherited explicit with ⟨as, m, bs, hg, heq⟩ | ⟨-, heq⟩
  · rw [heq, edges, edges, hg, List.filterMap_append, List.filterMap_append]
    rfl
  · rw [heq, addNode, edges_push]
    exact List.append_nil _

lemma everywhere_of_declareNode {name : Ident} {anchor : Option String}
    {inherited explicit : Attributes}
    (h : (g.declareNode name anchor inherited explicit).Everywhere (HasDistinctEdges directed)) :
    g.Everywhere (HasDistinctEdges directed) := by
  obtain ⟨hd, hss⟩ := everywhere_iff.1 h
  rw [HasDistinctEdges, edges_declareNode] at hd
  refine everywhere_iff.2 ⟨hd, fun t ht => ?_⟩
  rcases g.declareNode_cases name anchor inherited explicit with ⟨as, m, bs, hg, heq⟩ | ⟨-, heq⟩
  · rw [hg, List.mem_append, List.mem_cons] at ht
    rw [heq] at hss
    rcases ht with ht | rfl | ht
    · exact hss t (List.mem_append_left _ ht)
    · trivial
    · exact hss t (List.mem_append_right _ (List.mem_cons_of_mem _ ht))
  · rw [heq] at hss
    exact hss t (List.mem_append_left _ ht)

end Subgraph

/-! ### What merging does -/

/-- `s` is what `l` becomes where edges are merged: `l` itself, or less, where `l` has edges
between the same endpoints. -/
def Statement.MergedFrom (directed : Bool) (s l : Statement) : Prop :=
  s = l ∨ s.edgeCount < l.edgeCount ∧ ¬ l.Everywhere (Subgraph.HasDistinctEdges directed)

def Endpoint.MergedFrom (directed : Bool) (s l : Endpoint) : Prop :=
  s = l ∨ s.edgeCount < l.edgeCount ∧ ¬ l.Everywhere (Subgraph.HasDistinctEdges directed)

def Subgraph.MergedFrom (directed : Bool) (s l : Subgraph) : Prop :=
  s = l ∨ s.edgeCount < l.edgeCount ∧ ¬ l.Everywhere (Subgraph.HasDistinctEdges directed)

section Merged

variable {directed : Bool}

lemma count_le_of_merged {α : Type} {count : α → Nat} {P : Prop} {s l : α}
    (h : s = l ∨ count s < count l ∧ P) : count s ≤ count l := by
  rcases h with rfl | ⟨hlt, -⟩
  · exact Nat.le_refl _
  · exact Nat.le_of_lt hlt

lemma Endpoint.MergedFrom.edge {s l t u : Endpoint} (hs : s.MergedFrom directed l)
    (ht : t.MergedFrom directed u) (a : Attributes) :
    (Statement.edge ⟨s, t, a⟩).MergedFrom directed (.edge ⟨l, u, a⟩) := by
  have hle := count_le_of_merged ht
  rcases hs with rfl | ⟨hlt, hnot⟩
  · rcases ht with rfl | ⟨hlt, hnot⟩
    · exact .inl rfl
    · refine .inr ⟨?_, fun h => hnot h.2⟩
      simp only [Statement.edgeCount, Edge.edgeCount]
      omega
  · refine .inr ⟨?_, fun h => hnot h.1⟩
    simp only [Statement.edgeCount, Edge.edgeCount]
    omega

namespace Subgraph.MergedFrom

variable {s l : Subgraph}

lemma push (h : s.MergedFrom directed l) {t u : Statement} (ht : t.MergedFrom directed u) :
    (s.push t).MergedFrom directed (l.push u) := by
  have hle := count_le_of_merged ht
  rcases h with rfl | ⟨hlt, hnot⟩
  · rcases ht with rfl | ⟨hlt, hnot⟩
    · exact .inl rfl
    · refine .inr ⟨?_, fun hd => hnot (everywhere_of_push hd).2⟩
      rw [edgeCount_push, edgeCount_push]
      omega
  · refine .inr ⟨?_, fun hd => hnot (everywhere_of_push hd).1⟩
    rw [edgeCount_push, edgeCount_push]
    omega

lemma withAttributes (h : s.MergedFrom directed l) (change : Attributes → Attributes) :
    MergedFrom directed { s with attributes := change s.attributes }
      { l with attributes := change l.attributes } := by
  rcases h with rfl | ⟨hlt, hnot⟩
  · exact .inl rfl
  · refine .inr ⟨?_, fun hd => hnot ?_⟩
    · rw [edgeCount_eq, edgeCount_eq] at hlt ⊢
      exact hlt
    · obtain ⟨hdistinct, hdeep⟩ := everywhere_iff.1 hd
      exact everywhere_iff.2 ⟨hdistinct, hdeep⟩

lemma declareNode (h : s.MergedFrom directed l) (name : Ident) (anchor : Option String)
    (inherited explicit : Attributes) :
    (s.declareNode name anchor inherited explicit).MergedFrom directed
      (l.declareNode name anchor inherited explicit) := by
  rcases h with rfl | ⟨hlt, hnot⟩
  · exact .inl rfl
  · refine .inr ⟨?_, fun hd => hnot (everywhere_of_declareNode hd)⟩
    rw [edgeCount_declareNode, edgeCount_declareNode]
    exact hlt

/-- An edge that meets another one is lost, and the loose reading holds both. -/
lemma mergeEdge (h : s.MergedFrom directed l) {e f : Edge}
    (he : (Statement.edge e).MergedFrom directed (.edge f)) :
    (s.mergeEdge directed e).MergedFrom directed (l.addEdge f) := by
  rcases s.mergeEdge_cases directed e with ⟨as, d, bs, hs, hsame, heq⟩ | ⟨-, heq⟩
  · have hmem : d ∈ s.edges := mem_edges.2 (by rw [hs]; simp)
    have hkeeps : (s.mergeEdge directed e).edgeCount = s.edgeCount := by
      rw [heq]
      exact edgeCount_replace hs (by cases d; rfl)
    refine .inr ⟨?_, fun hd => ?_⟩
    · have hle := count_le_of_merged h
      have hpos := f.edgeCount_pos
      rw [hkeeps, addEdge, edgeCount_push, Statement.edgeCount]
      omega
    · -- with different edges the two readings agree so far, and the new edge meets none
      obtain ⟨hl, hf⟩ := everywhere_of_push hd
      obtain rfl : s = l := h.resolve_right fun hlost => hlost.2 hl
      cases he.resolve_right fun hlost => hlost.2 hf
      have hnew := @new_of_hasDistinctEdges directed s e [] (everywhere_iff.1 hd).1
      rw [hnew d hmem] at hsame
      cases hsame
  · rw [heq]
    exact h.push he

end Subgraph.MergedFrom

end Merged

/-! ### Two readings of the same clauses -/

/-- How a graph is read where its edges may repeat. -/
def Rules.loose (rules : Rules) : Rules := { rules with strict := false }

section Readings

variable {rules : Rules}

lemma Subgraph.MergedFrom.connect {s l : Subgraph} (h : s.MergedFrom rules.directed l) {e f : Edge}
    (he : (Statement.edge e).MergedFrom rules.directed (.edge f)) :
    (s.connect rules e).MergedFrom rules.directed (l.connect rules.loose f) := by
  have hloose : l.connect rules.loose f = l.addEdge f := by
    rw [Subgraph.connect, Rules.loose, if_neg Bool.false_ne_true]
  rw [hloose, Subgraph.connect]
  split
  · exact h.mergeEdge he
  · exact h.push he

lemma Subgraph.MergedFrom.connectAll (a : Attributes) {ends ends' : List Endpoint}
    (hends : List.Forall₂ (Endpoint.MergedFrom rules.directed) ends ends') {s l : Subgraph}
    (h : s.MergedFrom rules.directed l) :
    (s.connectAll rules a ends).MergedFrom rules.directed (l.connectAll rules.loose a ends') := by
  induction hends generalizing s l with
  | nil => exact h
  | cons hsource hothers ih =>
    cases hothers with
    | nil => exact h
    | cons hdestination hrest =>
      rw [Subgraph.connectAll, Subgraph.connectAll]
      exact ih (h.connect (hsource.edge hdestination a))

mutual

/-- One clause hands the same scope on, and what it merges in the one reading is there twice in
the other. -/
theorem apply_mergedFrom :
    (c : Clause) → (scope : Scope) → {s l : Subgraph} → s.MergedFrom rules.directed l →
    (c.apply rules scope s).1 = (c.apply rules.loose scope l).1 ∧
      (c.apply rules scope s).2.MergedFrom rules.directed (c.apply rules.loose scope l).2
  | .defaults kind items, scope, s, l, h => ⟨rfl, h.push (.inl rfl)⟩
  | .graph items, scope, s, l, h => ⟨rfl, h.withAttributes (·.merge (.ofItems items))⟩
  | .assign name value, scope, s, l, h => ⟨rfl, h.withAttributes (·.set name (.text value))⟩
  | .node name anchor items, scope, s, l, h =>
    ⟨rfl, h.declareNode name anchor (rules.inherited scope.node) (.ofItems items)⟩
  | .edges first second others items, scope, s, l, h =>
    ⟨rfl, .connectAll ((rules.inherited scope.edge).merge (.ofItems items))
      (.cons (endpoint_mergedFrom first scope)
        (.cons (endpoint_mergedFrom second scope) (endpoints_mergedFrom others scope))) h⟩
  | .block b, scope, s, l, h => by
    refine ⟨rfl, h.push ?_⟩
    exact (subgraph_mergedFrom b scope).imp (congrArg Statement.subgraph) id
termination_by structural c => c

theorem applyAll_mergedFrom :
    (cs : List Clause) → (scope : Scope) → {s l : Subgraph} → s.MergedFrom rules.directed l →
    (Clause.applyAll rules scope s cs).MergedFrom rules.directed
      (Clause.applyAll rules.loose scope l cs)
  | [], _, _, _, h => h
  | c :: cs, scope, s, l, h => by
    obtain ⟨hscope, hg⟩ := apply_mergedFrom c scope h
    have hrest := applyAll_mergedFrom cs (c.apply rules scope s).1 hg
    conv at hrest => rhs; rw [hscope]
    rw [Clause.applyAll, Clause.applyAll]
    exact hrest
termination_by structural cs => cs

theorem endpoint_mergedFrom : (t : Terminal) → (scope : Scope) →
    (t.endpoint rules scope).MergedFrom rules.directed (t.endpoint rules.loose scope)
  | .node _ _, _ => .inl rfl
  | .block b, scope => (subgraph_mergedFrom b scope).imp (congrArg Endpoint.subgraph) id
termination_by structural t => t

theorem endpoints_mergedFrom : (ts : List Terminal) → (scope : Scope) →
    List.Forall₂ (Endpoint.MergedFrom rules.directed) (Terminal.endpoints rules scope ts)
      (Terminal.endpoints rules.loose scope ts)
  | [], _ => .nil
  | t :: ts, scope => .cons (endpoint_mergedFrom t scope) (endpoints_mergedFrom ts scope)
termination_by structural ts => ts

theorem subgraph_mergedFrom : (b : Block) → (scope : Scope) →
    (b.subgraph rules scope).MergedFrom rules.directed (b.subgraph rules.loose scope)
  | ⟨name, clauses⟩, scope =>
    @applyAll_mergedFrom clauses scope (.empty name) (.empty name) (.inl rfl)
termination_by structural b => b

end

end Readings

end DotGraph
