import DotGraph.Graph.Edit
import DotGraph.Proofs.CanonicalGraph

/-!
# Strict graphs under edits

A strict graph whose edges have different endpoints keeps them different, whatever is done to it
in the operations that leave its kind and its strictness. Only the operations that take an edge
can add one, and each of them either appends the edge, where none has its endpoints, or adds its
attributes to the one edge that has them. Having the same endpoints is an equivalence for graphs
of either kind, so that the edge that is met is the only one.
-/

namespace DotGraph

/-! ### The same endpoints -/

namespace Edge

lemma sameEndpoints_iff {directed : Bool} {e f : Edge} :
    e.sameEndpoints directed f = true ↔
      e.source = f.source ∧ e.destination = f.destination ∨
        directed = false ∧ e.source = f.destination ∧ e.destination = f.source := by
  simp [sameEndpoints, and_assoc]

theorem equivalence_sameEndpoints (directed : Bool) :
    Equivalence fun e f : Edge => e.sameEndpoints directed f = true where
  refl e := sameEndpoints_iff.2 (.inl ⟨rfl, rfl⟩)
  symm {e f} h := by
    rw [sameEndpoints_iff] at h ⊢
    rcases h with ⟨hs, hd⟩ | ⟨hline, hs, hd⟩
    · exact .inl ⟨hs.symm, hd.symm⟩
    · exact .inr ⟨hline, hd.symm, hs.symm⟩
  trans {e f g} h h' := by
    rw [sameEndpoints_iff] at h h' ⊢
    rcases h with ⟨hs, hd⟩ | ⟨hline, hs, hd⟩ <;> rcases h' with ⟨hs', hd'⟩ | ⟨hline', hs', hd'⟩
    · exact .inl ⟨hs.trans hs', hd.trans hd'⟩
    · exact .inr ⟨hline', hs.trans hs', hd.trans hd'⟩
    · exact .inr ⟨hline, hs.trans hd', hd.trans hs'⟩
    · exact .inl ⟨hs.trans hd', hd.trans hs'⟩

/-- Edges with the same endpoints meet the same edges. -/
lemma sameEndpoints_congr {directed : Bool} {e f : Edge} (h : f.sameEndpoints directed e = true)
    (d : Edge) : d.sameEndpoints directed e = d.sameEndpoints directed f := by
  have hequiv := equivalence_sameEndpoints directed
  rw [Bool.eq_iff_iff]
  constructor
  · intro hd
    exact hequiv.trans hd (hequiv.symm h)
  · intro hd
    exact hequiv.trans hd h

end Edge

namespace Subgraph

variable {directed : Bool} {g : Subgraph}

/-- An edge is the only one with its endpoints. -/
lemma HasDistinctEdges.other (h : g.HasDistinctEdges directed) {as bs : List Statement} {f : Edge}
    (hg : g.statements = as ++ .edge f :: bs) {d : Edge} (hd : .edge d ∈ as ++ bs) :
    d.sameEndpoints directed f = false := by
  have hequiv := Edge.equivalence_sameEndpoints directed
  rw [HasDistinctEdges, edges, hg, List.filterMap_append, List.pairwise_append] at h
  obtain ⟨-, hbs, has⟩ := h
  rcases List.mem_append.1 hd with hd | hd
  · exact has d (List.mem_filterMap.2 ⟨_, hd, rfl⟩) f List.mem_cons_self
  · have hlater := List.rel_of_pairwise_cons hbs (List.mem_filterMap.2 ⟨_, hd, rfl⟩)
    rw [← Bool.not_eq_true] at hlater ⊢
    intro hsame
    exact hlater (hequiv.symm hsame)

/-- Merging an edge keeps the endpoints of all edges different. -/
lemma HasDistinctEdges.mergeEdge (h : g.HasDistinctEdges directed) (e : Edge) :
    (g.mergeEdge directed e).HasDistinctEdges directed := by
  rcases g.mergeEdge_cases directed e with ⟨as, f, bs, hg, -, heq⟩ | ⟨hnew, heq⟩
  · rw [heq]
    exact h.replace hg rfl
  · rw [heq]
    apply h.push
    intro d hd f hf
    cases hd
    exact hnew f hf

lemma edges_modifyNode? {name : String} {change : Node → Node} {made : Subgraph}
    (h : g.modifyNode? name change = some made) : made.edges = g.edges := by
  obtain ⟨ss, hss, rfl⟩ := Option.map_eq_some_iff.1 h
  obtain ⟨as, s, bs, hg, hs, rfl⟩ := modifyFirst?_eq_some hss
  cases s with
  | node n =>
    rw [edges, edges, hg, List.filterMap_append, List.filterMap_append]
    rfl
  | edge | subgraph | defaults => simp [Statement.isNodeNamed, Statement.node?] at hs

lemma edges_mergeNode (n : Node) : (g.mergeNode n).edges = g.edges := by
  rw [mergeNode]
  cases h : g.modifyNode? n.name.text _ with
  | none => exact (edges_push g (.node n)).trans (List.append_nil _)
  | some made => exact edges_modifyNode? h

end Subgraph

lemma eraseMatch?_sublist {α : Type} {p : α → Bool} {i : Nat} {xs ys : List α}
    (h : eraseMatch? p i xs = some ys) : ys.Sublist xs := by
  obtain ⟨before, x, after, rfl, rfl, -, -⟩ := eraseMatch?_eq_some h
  exact (List.sublist_cons_self x after).append_left before

lemma Subgraph.eraseMatches_sublist (g : Subgraph) (p : Statement → Bool) (index : Option Nat) :
    (g.eraseMatches p index).1.statements.Sublist g.statements := by
  rw [eraseMatches]
  cases h : eraseMatches? p index g.statements with
  | none => exact List.Sublist.refl _
  | some ss =>
    cases index with
    | some i => exact eraseMatch?_sublist h
    | none =>
      rw [eraseMatches?] at h
      split at h
      · cases h
        exact List.filter_sublist
      · cases h

lemma Subgraph.edges_eraseMatches_sublist (g : Subgraph) (p : Statement → Bool)
    (index : Option Nat) : (g.eraseMatches p index).1.edges.Sublist g.edges :=
  (g.eraseMatches_sublist p index).filterMap _

/-! ### Edits -/

namespace Graph

/-- What becomes of a graph that takes an edge: the edge is appended, or it is merged into the one
edge with its endpoints. -/
inductive Takes (g : Graph) (e : Edge) : Graph → Prop
  | append (hnew : ∀ f ∈ g.body.edges, f.sameEndpoints g.kind.isDirected e = false) :
      Takes g e (g.withBody { g.body with statements := g.body.statements ++ [.edge e] })
  | merge {as bs : List Statement} {f : Edge} (hg : g.body.statements = as ++ .edge f :: bs)
      (hsame : f.sameEndpoints g.kind.isDirected e = true)
      (hother : ∀ d, .edge d ∈ as ++ bs → d.sameEndpoints g.kind.isDirected e = false) :
      Takes g e (g.withBody { g.body with
        statements := as ++ .edge { f with attributes := f.attributes.merge e.attributes } :: bs })

variable {g : Graph}

lemma addEdge_of_strict (hs : g.strict = true) (e : Edge) :
    g.addEdge e = g.withBody (g.body.mergeEdge g.kind.isDirected e) := by
  rw [addEdge, if_pos hs]
  rfl

theorem takes_addEdge (hs : g.strict = true) (hd : g.body.HasDistinctEdges g.kind.isDirected)
    (e : Edge) : g.Takes e (g.addEdge e) := by
  rw [addEdge_of_strict hs]
  rcases g.body.mergeEdge_cases g.kind.isDirected e with ⟨as, f, bs, hg, hsame, heq⟩ | ⟨hnew, heq⟩
  · rw [heq]
    apply Takes.merge hg hsame
    intro d hmem
    -- an edge that met the new one would meet the one that it is merged into
    rw [Edge.sameEndpoints_congr hsame]
    exact hd.other hg hmem
  · rw [heq]
    exact Takes.append hnew

/-- A graph that refuses what it is given stays as it is. -/
lemma attempt_refused {r : Except DotError Graph} {e : DotError}
    (h : (g.attempt r).1 = .refused e) : (g.attempt r).2 = g := by
  cases r with
  | ok made => cases h
  | error _ => rfl

end Graph

namespace Edit

variable {g : Graph}

/-- What was refused has changed nothing. -/
theorem apply_refused {edit : Edit} {e : DotError} (h : (edit.apply g).1 = .refused e) :
    (edit.apply g).2 = g := by
  cases edit with
  | setCharset label => exact @Graph.attempt_refused g (g.setCharset label) e h
  | tryAddNode v => exact @Graph.attempt_refused g (v.toNode.map _) e h
  | tryAddEdge v => exact @Graph.attempt_refused g (v.toEdge.map _) e h
  | tryAddSubgraph v => exact @Graph.attempt_refused g (v.toSubgraph.map _) e h
  | changeNode name change =>
    rw [apply] at h ⊢
    split at h
    · cases h
    · cases h
  | _ => cases h

/-- An edit hands an edge to the graph, or it adds none and keeps the kind and the strictness. -/
theorem apply_cases (g : Graph) (edit : Edit) :
    (∃ e, edit.edge? = some e ∧ (edit.apply g).2 = g.addEdge e) ∨
      edit.edge? = none ∧ (edit.apply g).2.kind = g.kind ∧ (edit.apply g).2.strict = g.strict ∧
        (edit.apply g).2.body.edges.Sublist g.body.edges := by
  have hsame {body : Subgraph} (h : body.edges = g.body.edges) :
      body.edges.Sublist g.body.edges := h ▸ List.Sublist.refl _
  have hpush {s : Statement} (hs : s.edge? = none) :
      (g.body.push s).edges.Sublist g.body.edges := by
    rw [Subgraph.edges_push, hs]
    simp
  cases edit with
  | addEdge e => exact .inl ⟨e, rfl, rfl⟩
  | tryAddEdge v =>
    cases v with
    | edge e => exact .inl ⟨e, rfl, rfl⟩
    | text | integer | float | boolean | node | subgraph => exact .inr ⟨rfl, rfl, rfl, hsame rfl⟩
  | tryAddNode v =>
    cases v with
    | node n => exact .inr ⟨rfl, rfl, rfl, hpush rfl⟩
    | text | integer | float | boolean | edge | subgraph => exact .inr ⟨rfl, rfl, rfl, hsame rfl⟩
  | tryAddSubgraph v =>
    cases v with
    | subgraph s => exact .inr ⟨rfl, rfl, rfl, hpush rfl⟩
    | text | integer | float | boolean | node | edge => exact .inr ⟨rfl, rfl, rfl, hsame rfl⟩
  | addNode | addSubgraph | addDefaults => exact .inr ⟨rfl, rfl, rfl, hpush rfl⟩
  | setName | setSimplify | changeAttributes => exact .inr ⟨rfl, rfl, rfl, hsame rfl⟩
  | setCharset label =>
    refine .inr ⟨rfl, ?_⟩
    rw [apply, Graph.setCharset]
    cases Charset.ofLabel label <;> exact ⟨rfl, rfl, hsame rfl⟩
  | mergeNode n => exact .inr ⟨rfl, rfl, rfl, hsame (Subgraph.edges_mergeNode n)⟩
  | changeNode name change =>
    refine .inr ⟨rfl, ?_⟩
    rw [apply]
    cases h : g.body.modifyNode? name change with
    | none => exact ⟨rfl, rfl, hsame rfl⟩
    | some body => exact ⟨rfl, rfl, hsame (Subgraph.edges_modifyNode? h)⟩
  | eraseNodes | eraseEdges | eraseSubgraphs =>
    exact .inr ⟨rfl, rfl, rfl, g.body.edges_eraseMatches_sublist _ _⟩

/-- One edit keeps a graph strict and the endpoints of its edges different. -/
theorem apply_hasDistinctEdges (hs : g.strict = true)
    (hd : g.body.HasDistinctEdges g.kind.isDirected) (edit : Edit) :
    (edit.apply g).2.strict = true ∧ (edit.apply g).2.kind = g.kind ∧
      (edit.apply g).2.body.HasDistinctEdges g.kind.isDirected := by
  rcases apply_cases g edit with ⟨e, -, heq⟩ | ⟨-, hkind, hstrict, hedges⟩
  · rw [heq, Graph.addEdge_of_strict hs]
    exact ⟨hs, rfl, hd.mergeEdge e⟩
  · exact ⟨hstrict.trans hs, hkind, hd.sublist hedges⟩

end Edit

namespace Graph

variable {g : Graph}

lemma run_concat (edits : List Edit) (edit : Edit) :
    g.run (edits ++ [edit]) = (edit.apply (g.run edits)).2 := by
  rw [run, List.foldl_append]
  rfl

/-- A run of edits keeps a graph strict and the endpoints of its edges different. -/
theorem strict_run (hs : g.strict = true)
    (hd : g.body.HasDistinctEdges g.kind.isDirected) (edits : List Edit) :
    (g.run edits).strict = true ∧ (g.run edits).kind = g.kind ∧
      (g.run edits).body.HasDistinctEdges g.kind.isDirected := by
  -- the first edit gives a graph of the same kind, from which the others run
  induction edits generalizing g with
  | nil => exact ⟨hs, rfl, hd⟩
  | cons edit edits ih =>
    obtain ⟨hstrict, hkind, hdistinct⟩ := Edit.apply_hasDistinctEdges hs hd edit
    rw [← hkind] at hdistinct
    have hrest := ih hstrict hdistinct
    rw [hkind] at hrest
    exact hrest

/-- A strict graph never holds two edges with the same endpoints: after every run of edits they
are different, and the next edge is appended or merged into the one that has its endpoints. -/
theorem hasDistinctEdges_run {g : Graph} (hs : g.strict = true)
    (hd : g.body.HasDistinctEdges g.kind.isDirected) (edits : List Edit) :
    (g.run edits).body.HasDistinctEdges (g.run edits).kind.isDirected ∧
      ∀ edit e, edit.edge? = some e → (g.run edits).Takes e (g.run (edits ++ [edit])) := by
  obtain ⟨hstrict, hkind, hdistinct⟩ := strict_run hs hd edits
  rw [← hkind] at hdistinct
  refine ⟨hdistinct, fun edit e he => ?_⟩
  rw [run_concat]
  rcases Edit.apply_cases (g.run edits) edit with ⟨f, hf, heq⟩ | ⟨hnone, -⟩
  · rw [heq, Option.some.inj (he.symm.trans hf)]
    exact takes_addEdge hstrict hdistinct f
  · rw [hnone] at he
    cases he

/-- A strict graph with one edge. -/
def joined : Graph where
  kind := .graph
  strict := true
  body := ⟨none, .empty, [.edge ⟨.node ⟨"a"⟩ none, .node ⟨"b"⟩ none, .empty⟩]⟩

/-- An edge is drawn the other way round, an edge is erased and drawn again, and a value of the
wrong kind is refused. -/
def edited : List Edit :=
  let back : Edge := ⟨.node ⟨"b"⟩ none, .node ⟨"a"⟩ none, .ofList [(⟨"k"⟩, .implicit)]⟩
  [.addEdge back, .addNode ⟨⟨"a"⟩, none, .empty⟩, .tryAddEdge (.edge back), .tryAddEdge (.text "a"),
    .changeNode "a" fun n => { n with name := ⟨"b"⟩ }, .eraseEdges "a" "b" none, .addEdge back]

theorem hasDistinctEdges_run_edited : joined.strict = true ∧
    joined.body.HasDistinctEdges joined.kind.isDirected ∧
    (joined.run edited).body.edges.length = 1 ∧
    (joined.run edited).body.HasDistinctEdges (joined.run edited).kind.isDirected ∧
      ∀ edit e, edit.edge? = some e →
        (joined.run edited).Takes e (joined.run (edited ++ [edit])) := by
  have hd : joined.body.HasDistinctEdges joined.kind.isDirected := List.pairwise_singleton _ _
  exact ⟨rfl, hd, by decide +kernel, hasDistinctEdges_run rfl hd edited⟩

end Graph

end DotGraph
