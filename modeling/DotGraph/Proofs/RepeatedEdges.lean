import DotGraph.Proofs.Simplified
import DotGraph.Proofs.StrictEdges

/-!
# Repeated edges

A graph without its repeated edges: in each container, the blocks that edges end in included, an
edge goes where an earlier one of the container joins the same endpoints. What is left depends on
the endpoints that were met and not on which edges met them, because having the same endpoints is
an equivalence. Every edge takes up text, so the text of a graph is that of the graph without its
repeated edges only if it writes none.
-/

namespace DotGraph

mutual

/-- The statements without the edges that join what an earlier edge joins, at every depth. The
given edges stand in front of the statements. -/
def Statement.dropRepeats (directed : Bool) (earlier : List Edge) : List Statement → List Statement
  | [] => []
  | .node n :: ss => .node n :: Statement.dropRepeats directed earlier ss
  | .defaults d :: ss => .defaults d :: Statement.dropRepeats directed earlier ss
  | .subgraph g :: ss =>
    .subgraph (g.withoutRepeats directed) :: Statement.dropRepeats directed earlier ss
  | .edge e :: ss =>
    if earlier.any (·.sameEndpoints directed e) then
      Statement.dropRepeats directed (e :: earlier) ss
    else .edge (e.withoutRepeats directed) :: Statement.dropRepeats directed (e :: earlier) ss
termination_by structural ss => ss

def Edge.withoutRepeats (directed : Bool) : Edge → Edge
  | ⟨source, destination, attributes⟩ =>
    ⟨source.withoutRepeats directed, destination.withoutRepeats directed, attributes⟩
termination_by structural e => e

def Endpoint.withoutRepeats (directed : Bool) : Endpoint → Endpoint
  | .node name anchor => .node name anchor
  | .subgraph g => .subgraph (g.withoutRepeats directed)
termination_by structural e => e

def Subgraph.withoutRepeats (directed : Bool) : Subgraph → Subgraph
  | ⟨name, attributes, statements⟩ =>
    ⟨name, attributes, Statement.dropRepeats directed [] statements⟩
termination_by structural g => g

end

def Graph.withoutRepeats (g : Graph) : Graph :=
  { g with simplify := false, body := g.body.withoutRepeats g.kind.isDirected }

/-! ### Edges that were met -/

section Met

variable {directed : Bool}

/-- One more edge makes no difference where its endpoints were met before. -/
lemma any_sameEndpoints_cons {earlier : List Edge} {e : Edge}
    (he : earlier.any (·.sameEndpoints directed e) = true) (f : Edge) :
    (e :: earlier).any (·.sameEndpoints directed f) =
      earlier.any (·.sameEndpoints directed f) := by
  rw [List.any_cons]
  cases hf : e.sameEndpoints directed f with
  | false => exact Bool.false_or _
  | true =>
    obtain ⟨d, hd, hsame⟩ := List.any_eq_true.1 he
    have hany : earlier.any (·.sameEndpoints directed f) = true :=
      List.any_eq_true.2 ⟨d, hd, (Edge.equivalence_sameEndpoints directed).trans hsame hf⟩
    rw [hany, Bool.or_true]

namespace Statement

lemma dropRepeats_congr {earlier earlier' : List Edge}
    (h : ∀ e, earlier.any (·.sameEndpoints directed e) = earlier'.any (·.sameEndpoints directed e))
    (ss : List Statement) : dropRepeats directed earlier ss = dropRepeats directed earlier' ss := by
  induction ss generalizing earlier earlier' with
  | nil => rfl
  | cons s ss ih =>
    cases s with
    | node | defaults | subgraph => rw [dropRepeats, dropRepeats, ih h]
    | edge e =>
      have hcons (f : Edge) : (e :: earlier).any (·.sameEndpoints directed f) =
          (e :: earlier').any (·.sameEndpoints directed f) := by
        rw [List.any_cons, List.any_cons, h]
      rw [dropRepeats, dropRepeats, h, ih hcons]

lemma length_dropRepeats_le (earlier : List Edge) (ss : List Statement) :
    (dropRepeats directed earlier ss).length ≤ ss.length := by
  induction ss generalizing earlier with
  | nil => exact Nat.le_refl _
  | cons s ss ih =>
    cases s with
    | node | defaults | subgraph =>
      rw [dropRepeats]
      exact Nat.succ_le_succ (ih earlier)
    | edge e =>
      rw [dropRepeats]
      split
      · exact Nat.le_succ_of_le (ih (e :: earlier))
      · exact Nat.succ_le_succ (ih (e :: earlier))

end Statement

mutual

lemma dropRepeats_simplifyAll (earlier : List Edge) : (ss : List Statement) →
    Statement.dropRepeats directed earlier (Statement.simplifyAll directed earlier ss) =
      Statement.dropRepeats directed earlier ss
  | [] => rfl
  | .node n :: ss => by
    rw [Statement.simplifyAll, Statement.dropRepeats, Statement.dropRepeats,
      dropRepeats_simplifyAll earlier ss]
  | .defaults d :: ss => by
    rw [Statement.simplifyAll, Statement.dropRepeats, Statement.dropRepeats,
      dropRepeats_simplifyAll earlier ss]
  | .subgraph g :: ss => by
    rw [Statement.simplifyAll, Statement.dropRepeats, Statement.dropRepeats,
      dropRepeats_simplifyAll earlier ss, withoutRepeats_simplified g]
  | .edge e :: ss => by
    rw [Statement.simplifyAll, Statement.dropRepeats]
    split
    · -- simplification forgets the edge, and those behind it meet an earlier one instead
      rename_i he
      rw [dropRepeats_simplifyAll earlier ss]
      exact Statement.dropRepeats_congr (fun f => (any_sameEndpoints_cons he f).symm) ss
    · rename_i he
      rw [Statement.dropRepeats, if_neg he, dropRepeats_simplifyAll (e :: earlier) ss]
termination_by structural ss => ss

/-- The edges that simplification leaves out are repeated ones. -/
lemma withoutRepeats_simplified : (g : Subgraph) →
    (g.simplified directed).withoutRepeats directed = g.withoutRepeats directed
  | ⟨name, attributes, statements⟩ => by
    rw [Subgraph.simplified, Subgraph.withoutRepeats, dropRepeats_simplifyAll [] statements,
      Subgraph.withoutRepeats]
termination_by structural g => g

end

end Met

/-- What is left of a graph is left of it where it is simplified before. -/
lemma Graph.withoutRepeats_simplified (g : Graph) :
    g.simplified.withoutRepeats = g.withoutRepeats := by
  rw [Graph.simplified]
  split
  · rw [Graph.withoutRepeats, DotGraph.withoutRepeats_simplified]
    rfl
  · rfl

/-! ### Containers that lose nothing -/

section Nothing

variable {directed : Bool}

/-- The edges join what neither an earlier one nor a given one joins. -/
def Statement.HasNewEdges (directed : Bool) (earlier : List Edge) (ss : List Statement) : Prop :=
  (ss.filterMap edge?).Pairwise (fun e f => e.sameEndpoints directed f = false) ∧
    ∀ e ∈ ss.filterMap edge?, earlier.any (·.sameEndpoints directed e) = false

lemma Statement.hasNewEdges_edge_iff {earlier : List Edge} {e : Edge} {ss : List Statement} :
    HasNewEdges directed earlier (.edge e :: ss) ↔
      earlier.any (·.sameEndpoints directed e) = false ∧ HasNewEdges directed (e :: earlier) ss := by
  have hedges : (Statement.edge e :: ss).filterMap edge? = e :: ss.filterMap edge? := rfl
  simp only [HasNewEdges, hedges, List.pairwise_cons, List.forall_mem_cons, List.any_cons,
    Bool.or_eq_false_iff, forall_and]
  tauto

lemma Statement.hasNewEdges_other_iff {earlier : List Edge} {s : Statement} (hs : s.edge? = none)
    {ss : List Statement} :
    HasNewEdges directed earlier (s :: ss) ↔ HasNewEdges directed earlier ss := by
  rw [HasNewEdges, HasNewEdges, List.filterMap_cons_none hs]

lemma Subgraph.hasNewEdges_iff {g : Subgraph} :
    Statement.HasNewEdges directed [] g.statements ↔ g.HasDistinctEdges directed := by
  simp [Statement.HasNewEdges, HasDistinctEdges, edges]

mutual

lemma dropRepeats_eq_self_iff (earlier : List Edge) : (ss : List Statement) →
    (Statement.dropRepeats directed earlier ss = ss ↔
      Statement.AllEverywhere (Subgraph.HasDistinctEdges directed) ss ∧
        Statement.HasNewEdges directed earlier ss)
  | [] => by simp [Statement.dropRepeats, Statement.AllEverywhere, Statement.HasNewEdges]
  | .node n :: ss => by
    rw [Statement.dropRepeats, List.cons.injEq, dropRepeats_eq_self_iff earlier ss,
      Statement.hasNewEdges_other_iff rfl]
    simp [Statement.AllEverywhere, Statement.Everywhere]
  | .defaults d :: ss => by
    rw [Statement.dropRepeats, List.cons.injEq, dropRepeats_eq_self_iff earlier ss,
      Statement.hasNewEdges_other_iff rfl]
    simp [Statement.AllEverywhere, Statement.Everywhere]
  | .subgraph g :: ss => by
    rw [Statement.dropRepeats, List.cons.injEq, dropRepeats_eq_self_iff earlier ss,
      Statement.hasNewEdges_other_iff rfl, Statement.subgraph.injEq,
      Subgraph.withoutRepeats_eq_self_iff g, Statement.AllEverywhere, Statement.Everywhere,
      and_assoc]
  | .edge e :: ss => by
    rw [Statement.dropRepeats, Statement.hasNewEdges_edge_iff]
    split
    · -- an edge that goes leaves fewer statements
      rename_i he
      have hlength := @Statement.length_dropRepeats_le directed (e :: earlier) ss
      constructor
      · intro h
        rw [h, List.length_cons] at hlength
        omega
      · rintro ⟨-, hnew, -⟩
        rw [hnew] at he
        cases he
    · rename_i he
      rw [List.cons.injEq, dropRepeats_eq_self_iff (e :: earlier) ss, Statement.edge.injEq,
        Edge.withoutRepeats_eq_self_iff e, Statement.AllEverywhere, Statement.Everywhere]
      simp [he, and_assoc]
termination_by structural ss => ss

lemma Edge.withoutRepeats_eq_self_iff : (e : Edge) →
    (e.withoutRepeats directed = e ↔ e.Everywhere (Subgraph.HasDistinctEdges directed))
  | ⟨source, destination, attributes⟩ => by
    rw [Edge.withoutRepeats, Edge.mk.injEq, Endpoint.withoutRepeats_eq_self_iff source,
      Endpoint.withoutRepeats_eq_self_iff destination, Edge.Everywhere]
    simp
termination_by structural e => e

lemma Endpoint.withoutRepeats_eq_self_iff : (e : Endpoint) →
    (e.withoutRepeats directed = e ↔ e.Everywhere (Subgraph.HasDistinctEdges directed))
  | .node name anchor => by simp [Endpoint.withoutRepeats, Endpoint.Everywhere]
  | .subgraph g => by
    rw [Endpoint.withoutRepeats, Endpoint.subgraph.injEq, Subgraph.withoutRepeats_eq_self_iff g,
      Endpoint.Everywhere]
termination_by structural e => e

/-- A container loses nothing exactly when no container in it, at any depth, repeats an edge. -/
theorem Subgraph.withoutRepeats_eq_self_iff : (g : Subgraph) →
    (g.withoutRepeats directed = g ↔ g.Everywhere (Subgraph.HasDistinctEdges directed))
  | ⟨name, attributes, statements⟩ => by
    have hedges := @Subgraph.hasNewEdges_iff directed ⟨name, attributes, statements⟩
    rw [Subgraph.withoutRepeats, Subgraph.mk.injEq, dropRepeats_eq_self_iff [] statements,
      Subgraph.Everywhere, hedges]
    tauto
termination_by structural g => g

end

end Nothing

/-! ### The text -/

/-- `a` is `b`, or it has a shorter text. -/
def SameOrShorter {α : Type} (text : α → String) (a b : α) : Prop :=
  a = b ∨ (text a).length < (text b).length

section Shorter

variable {α : Type} {text : α → String} {a b : α}

lemma SameOrShorter.length_le (h : SameOrShorter text a b) :
    (text a).length ≤ (text b).length := by
  rcases h with rfl | h
  · exact Nat.le_refl _
  · exact Nat.le_of_lt h

lemma SameOrShorter.text_eq_iff (h : SameOrShorter text a b) : text a = text b ↔ a = b := by
  constructor
  · intro htext
    refine h.resolve_right fun hlt => ?_
    rw [htext] at hlt
    exact Nat.lt_irrefl _ hlt
  · exact congrArg text

end Shorter

namespace Printer

variable (p : Printer) (kind : GraphKind)

lemma length_line_lt (depth : Nat) {s t : String} (h : s.length < t.length) :
    (p.line depth s).length < (p.line depth t).length := by
  have ht : t.isEmpty = false := by
    rw [← Bool.not_eq_true, String.isEmpty_iff]
    rintro rfl
    exact absurd h (Nat.not_lt_zero _)
  have hnewline : "\n".length = 1 := rfl
  rw [line, line, ht, if_neg Bool.false_ne_true]
  split
  · simp only [String.length_append, String.length_empty]
    omega
  · simp only [String.length_append]
    omega

lemma length_edge_pos (e : Edge) : 0 < (p.edge kind e).length := by
  obtain ⟨source, destination, attributes⟩ := e
  have hend : ";".length = 1 := rfl
  rw [edge, String.length_append]
  omega

/-- The line of a statement in full text. -/
def statementLine (depth : Nat) : Statement → String
  | .node n => p.line depth (p.node n)
  | .edge e => p.line depth (p.edge kind e)
  | .subgraph g => p.line depth (p.block kind false (depth + 1) g)
  | .defaults d => p.line depth (p.defaults d)

lemma lines_cons (depth : Nat) (s : Statement) (ss : List Statement) :
    p.lines kind false depth [] (s :: ss) =
      p.statementLine kind depth s ++ p.lines kind false depth [] ss := by
  cases s with
  | node | defaults | subgraph => rfl
  | edge e =>
    rw [lines, Bool.false_and, if_neg Bool.false_ne_true, p.lines_full kind depth [e]]
    rfl

section Lines

variable {p kind} {depth : Nat} {s t : Statement} {ss tt : List Statement}

lemma sameOrShorter_subgraph {g h : Subgraph}
    (hg : SameOrShorter (p.block kind false (depth + 1)) g h) :
    SameOrShorter (p.statementLine kind depth) (.subgraph g) (.subgraph h) :=
  Or.imp (congrArg Statement.subgraph) (p.length_line_lt depth) hg

lemma sameOrShorter_edge {e f : Edge} (he : SameOrShorter (p.edge kind) e f) :
    SameOrShorter (p.statementLine kind depth) (.edge e) (.edge f) :=
  Or.imp (congrArg Statement.edge) (p.length_line_lt depth) he

lemma sameOrShorter_cons (hs : SameOrShorter (p.statementLine kind depth) s t)
    (hss : SameOrShorter (p.lines kind false depth []) ss tt) :
    SameOrShorter (p.lines kind false depth []) (s :: ss) (t :: tt) := by
  have hle := hss.length_le
  rcases hs with rfl | hs
  · refine Or.imp (congrArg (s :: ·)) (fun hlt => ?_) hss
    simp only [lines_cons, String.length_append]
    omega
  · refine .inr ?_
    simp only [lines_cons, String.length_append]
    omega

/-- Text that misses an edge is shorter. -/
lemma sameOrShorter_drop (e : Edge) (hss : SameOrShorter (p.lines kind false depth []) ss tt) :
    SameOrShorter (p.lines kind false depth []) ss (.edge e :: tt) := by
  have hle := hss.length_le
  have hpos := p.length_line_lt depth (s := "") (p.length_edge_pos kind e)
  refine .inr ?_
  rw [lines_cons, String.length_append, statementLine]
  omega

end Lines

section Drop

variable {directed : Bool}

mutual

lemma lines_dropRepeats (depth : Nat) (earlier : List Edge) : (ss : List Statement) →
    SameOrShorter (p.lines kind false depth []) (Statement.dropRepeats directed earlier ss) ss
  | [] => .inl rfl
  | .node n :: ss => sameOrShorter_cons (.inl rfl) (lines_dropRepeats depth earlier ss)
  | .defaults d :: ss => sameOrShorter_cons (.inl rfl) (lines_dropRepeats depth earlier ss)
  | .subgraph g :: ss =>
    sameOrShorter_cons (sameOrShorter_subgraph (block_withoutRepeats (depth + 1) g))
      (lines_dropRepeats depth earlier ss)
  | .edge e :: ss => by
    have hrest := lines_dropRepeats depth (e :: earlier) ss
    rw [Statement.dropRepeats]
    split
    · exact sameOrShorter_drop e hrest
    · exact sameOrShorter_cons (sameOrShorter_edge (edge_withoutRepeats e)) hrest
termination_by structural ss => ss

lemma edge_withoutRepeats : (e : Edge) →
    SameOrShorter (p.edge kind) (e.withoutRepeats directed) e
  | ⟨source, destination, attributes⟩ => by
    have hdestination := endpoint_withoutRepeats destination
    have hle := hdestination.length_le
    rw [Edge.withoutRepeats]
    rcases endpoint_withoutRepeats source with heq | hlt
    · rw [heq]
      refine Or.imp (congrArg fun d => Edge.mk source d attributes) (fun hlt => ?_) hdestination
      simp only [edge, String.length_append]
      omega
    · refine .inr ?_
      simp only [edge, String.length_append]
      omega
termination_by structural e => e

lemma endpoint_withoutRepeats : (e : Endpoint) →
    SameOrShorter (p.endpoint kind) (e.withoutRepeats directed) e
  | .node _ _ => .inl rfl
  | .subgraph g => Or.imp (congrArg Endpoint.subgraph) id (block_withoutRepeats 1 g)
termination_by structural e => e

/-- The text of a container is longer than that of what is left without repeated edges, unless
nothing is lost. -/
lemma block_withoutRepeats (depth : Nat) : (g : Subgraph) →
    SameOrShorter (p.block kind false depth) (g.withoutRepeats directed) g
  | ⟨name, attributes, statements⟩ => by
    refine Or.imp (congrArg (Subgraph.mk name attributes)) (fun hlt => ?_)
      (lines_dropRepeats depth [] statements)
    simp only [Subgraph.withoutRepeats, block, String.length_append]
    omega
termination_by structural g => g

end

end Drop

lemma graph_withoutRepeats {g : Graph} (h : g.simplify = false) :
    SameOrShorter p.graph g.withoutRepeats g := by
  obtain ⟨kind, strict, simplify, name, attributes, statements⟩ := g
  cases h
  let g : Graph := ⟨kind, strict, false, ⟨name, attributes, statements⟩⟩
  have hheader : header g.withoutRepeats = header g := rfl
  have hattributes : g.withoutRepeats.attributes = g.attributes := rfl
  refine Or.imp (congrArg fun ss => Graph.mk kind strict false ⟨name, attributes, ss⟩)
    (fun hlt => ?_) (@lines_dropRepeats p kind kind.isDirected 1 [] statements)
  rw [graph, graph, hheader, hattributes]
  simp only [String.length_append]
  exact Nat.add_lt_add_right (Nat.add_lt_add_left hlt _) _

/-- The text of a graph is that of the graph without its repeated edges exactly when no container
that is written, the blocks that edges end in included, holds two edges between the same
endpoints. -/
theorem graph_eq_withoutRepeats_iff (g : Graph) :
    p.graph g = p.graph g.withoutRepeats ↔
      g.simplified.body.Everywhere (Subgraph.HasDistinctEdges g.kind.isDirected) := by
  have hkind : g.simplified.kind = g.kind := by
    rw [Graph.simplified]
    split <;> rfl
  have hfull : g.simplified.withoutRepeats = g.simplified ↔
      g.simplified.body.withoutRepeats g.simplified.kind.isDirected = g.simplified.body := by
    rw [Graph.withoutRepeats, Graph.mk.injEq]
    simp [g.simplify_simplified]
  calc p.graph g = p.graph g.withoutRepeats
    _ ↔ p.graph g.simplified.withoutRepeats = p.graph g.simplified := by
      rw [graph_simplified, g.withoutRepeats_simplified, eq_comm]
    _ ↔ g.simplified.withoutRepeats = g.simplified :=
      (p.graph_withoutRepeats g.simplify_simplified).text_eq_iff
    _ ↔ g.simplified.body.Everywhere (Subgraph.HasDistinctEdges g.kind.isDirected) := by
      rw [hfull, Subgraph.withoutRepeats_eq_self_iff, hkind]

/-- An edge that leaves a block, which holds another edge twice. -/
def repeating : Graph :=
  let e : Edge := ⟨.node ⟨"a"⟩ none, .node ⟨"b"⟩ none, .empty⟩
  let block : Subgraph := ⟨none, .empty, [.edge e, .edge e]⟩
  { kind := .graph
    simplify := true
    body := ⟨none, .empty, [.edge ⟨.subgraph block, .node ⟨"c"⟩ none, .empty⟩]⟩ }

/-- The simplified text repeats an edge in the block that an edge ends in. -/
theorem graph_ne_withoutRepeats : repeating.simplify = true ∧
    graph {} repeating = "graph \x7b\n\x7b\na -- b;\na -- b;\n\x7d -- c;\n\x7d\n" ∧
    graph {} repeating.withoutRepeats = "graph \x7b\n\x7b\na -- b;\n\x7d -- c;\n\x7d\n" ∧
    graph {} repeating ≠ graph {} repeating.withoutRepeats := by
  decide +kernel

end Printer

end DotGraph
