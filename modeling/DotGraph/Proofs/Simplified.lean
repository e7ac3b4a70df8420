import DotGraph.Printer
import DotGraph.Proofs.CanonicalGraph

/-!
# Simplified graphs

What the text of a simplified graph leaves out: in the graph and in its subgraphs, each edge that
joins what an earlier edge of the same container joins. The blocks that edges end in are written
in full. The text is that of the graph without those edges.
-/

namespace DotGraph

mutual

/-- The statements without the edges that join what an earlier edge joins, where the given edges
stand in front of them. -/
def Statement.simplifyAll (directed : Bool) (earlier : List Edge) : List Statement → List Statement
  | [] => []
  | .node n :: ss => .node n :: Statement.simplifyAll directed earlier ss
  | .defaults d :: ss => .defaults d :: Statement.simplifyAll directed earlier ss
  | .subgraph g :: ss =>
    .subgraph (g.simplified directed) :: Statement.simplifyAll directed earlier ss
  | .edge e :: ss =>
    if earlier.any (·.sameEndpoints directed e) then Statement.simplifyAll directed earlier ss
    else .edge e :: Statement.simplifyAll directed (e :: earlier) ss
termination_by structural ss => ss

def Subgraph.simplified (directed : Bool) : Subgraph → Subgraph
  | ⟨name, attributes, statements⟩ =>
    ⟨name, attributes, Statement.simplifyAll directed [] statements⟩
termination_by structural g => g

end

def Graph.simplified (g : Graph) : Graph :=
  if g.simplify then { g with simplify := false, body := g.body.simplified g.kind.isDirected }
  else g

/-! ### The text -/

namespace Printer

variable (p : Printer) (kind : GraphKind)

/-- Nothing is left out of full text, so that the edges before do not matter. -/
lemma lines_full (depth : Nat) (earlier : List Edge) (ss : List Statement) :
    p.lines kind false depth earlier ss = p.lines kind false depth [] ss := by
  induction ss generalizing earlier with
  | nil => rfl
  | cons s ss ih =>
    cases s with
    | node | defaults | subgraph =>
      rw [lines, lines, ih]
    | edge e =>
      rw [lines, lines, Bool.false_and, Bool.false_and, if_neg Bool.false_ne_true,
        if_neg Bool.false_ne_true, ih (e :: earlier), ih [e]]

mutual

lemma lines_simplifyAll (depth : Nat) (earlier : List Edge) :
    (ss : List Statement) → p.lines kind true depth earlier ss =
      p.lines kind false depth [] (Statement.simplifyAll kind.isDirected earlier ss)
  | [] => rfl
  | .node n :: ss => by
    rw [Statement.simplifyAll, lines, lines, lines_simplifyAll depth earlier ss]
  | .defaults d :: ss => by
    rw [Statement.simplifyAll, lines, lines, lines_simplifyAll depth earlier ss]
  | .subgraph g :: ss => by
    rw [Statement.simplifyAll, lines, lines, lines_simplifyAll depth earlier ss,
      block_simplified (depth + 1) g]
  | .edge e :: ss => by
    rw [Statement.simplifyAll, lines, Bool.true_and]
    split
    · exact lines_simplifyAll depth earlier ss
    · rw [lines, Bool.false_and, if_neg Bool.false_ne_true,
        lines_simplifyAll depth (e :: earlier) ss, p.lines_full kind depth [e]]
termination_by structural ss => ss

lemma block_simplified (depth : Nat) : (g : Subgraph) → p.block kind true depth g =
    p.block kind false depth (g.simplified kind.isDirected)
  | ⟨name, attributes, statements⟩ => by
    rw [Subgraph.simplified, block, block, lines_simplifyAll depth [] statements]
termination_by structural g => g

end

/-- The text of a graph is that of the graph without the edges that it leaves out. -/
theorem graph_simplified (g : Graph) : p.graph g.simplified = p.graph g := by
  obtain ⟨kind, strict, simplify, name, attributes, statements⟩ := g
  cases simplify with
  | false => rfl
  | true =>
    have hlines := p.lines_simplifyAll kind 1 [] statements
    conv_rhs => rw [graph, hlines]
    rfl

end Printer

/-! ### What simplification keeps -/

lemma Graph.simplify_simplified (g : Graph) : g.simplified.simplify = false := by
  rw [Graph.simplified]
  split
  · rfl
  · rename_i h
    simpa using h

lemma Edge.Everywhere.of_sameEndpoints {P : Subgraph → Prop} {directed : Bool} {e f : Edge}
    (h : f.sameEndpoints directed e = true) (hf : f.Everywhere P) : e.Everywhere P := by
  obtain ⟨source, destination, attributes⟩ := e
  obtain ⟨source', destination', attributes'⟩ := f
  simp only [Edge.sameEndpoints, Bool.or_eq_true, Bool.and_eq_true, beq_iff_eq] at h
  rcases h with ⟨rfl, rfl⟩ | ⟨⟨-, rfl⟩, rfl⟩
  · exact hf
  · exact ⟨hf.2, hf.1⟩

lemma Statement.nodes_simplifyAll (directed : Bool) (earlier : List Edge) (ss : List Statement) :
    (simplifyAll directed earlier ss).filterMap node? = ss.filterMap node? := by
  induction ss generalizing earlier with
  | nil => rfl
  | cons s ss ih =>
    cases s with
    | node n =>
      rw [simplifyAll]
      exact congrArg (n :: ·) (ih earlier)
    | defaults | subgraph =>
      rw [simplifyAll]
      exact ih earlier
    | edge e =>
      rw [simplifyAll]
      split
      · exact ih earlier
      · exact ih (e :: earlier)

lemma Subgraph.nodes_simplified (directed : Bool) (g : Subgraph) :
    (g.simplified directed).nodes = g.nodes := by
  obtain ⟨name, attributes, statements⟩ := g
  rw [simplified]
  exact Statement.nodes_simplifyAll directed [] statements

lemma Statement.mem_simplifyAll {directed : Bool} {earlier : List Edge} {ss : List Statement}
    {s : Statement} (h : s ∈ simplifyAll directed earlier ss) : s ∈ ss ∨ ∃ g, s = .subgraph g := by
  induction ss generalizing earlier with
  | nil => cases h
  | cons t ss ih =>
    have hkeep {earlier : List Edge} (h : s ∈ simplifyAll directed earlier ss) :
        s ∈ t :: ss ∨ ∃ g, s = .subgraph g := (ih h).imp_left (List.mem_cons_of_mem t)
    cases t with
    | node | defaults =>
      rw [simplifyAll] at h
      rcases List.mem_cons.1 h with rfl | h
      · exact .inl List.mem_cons_self
      · exact hkeep h
    | subgraph =>
      rw [simplifyAll] at h
      rcases List.mem_cons.1 h with rfl | h
      · exact .inr ⟨_, rfl⟩
      · exact hkeep h
    | edge e =>
      rw [simplifyAll] at h
      split at h
      · exact hkeep h
      rcases List.mem_cons.1 h with rfl | h
      · exact .inl List.mem_cons_self
      · exact hkeep h

section Everywhere

variable {P : Subgraph → Prop} {directed : Bool}

mutual

lemma Statement.AllEverywhere.simplifyAll (hP : ∀ g, P g → P (g.simplified directed))
    (earlier : List Edge) : (ss : List Statement) → Statement.AllEverywhere P ss →
      Statement.AllEverywhere P (Statement.simplifyAll directed earlier ss)
  | [], _ => trivial
  | .node _ :: ss, h => ⟨trivial, Statement.AllEverywhere.simplifyAll hP earlier ss h.2⟩
  | .defaults _ :: ss, h => ⟨trivial, Statement.AllEverywhere.simplifyAll hP earlier ss h.2⟩
  | .subgraph g :: ss, h =>
    ⟨Subgraph.Everywhere.simplified hP g h.1,
      Statement.AllEverywhere.simplifyAll hP earlier ss h.2⟩
  | .edge e :: ss, h => by
    rw [Statement.simplifyAll]
    split
    · exact Statement.AllEverywhere.simplifyAll hP earlier ss h.2
    · exact ⟨h.1, Statement.AllEverywhere.simplifyAll hP (e :: earlier) ss h.2⟩
termination_by structural ss => ss

/-- What simplification keeps of each container it keeps at every depth. -/
lemma Subgraph.Everywhere.simplified (hP : ∀ g, P g → P (g.simplified directed)) :
    (g : Subgraph) → g.Everywhere P → (g.simplified directed).Everywhere P
  | ⟨name, attributes, statements⟩, h =>
    ⟨hP ⟨name, attributes, statements⟩ h.1,
      Statement.AllEverywhere.simplifyAll hP [] statements h.2⟩
termination_by structural g => g

end

mutual

lemma Statement.AllEverywhere.of_simplifyAll (hP : ∀ g, P (g.simplified directed) → P g)
    (earlier : List Edge) (he : ∀ f ∈ earlier, f.Everywhere P) : (ss : List Statement) →
      Statement.AllEverywhere P (Statement.simplifyAll directed earlier ss) →
      Statement.AllEverywhere P ss
  | [], _ => trivial
  | .node _ :: ss, h => ⟨trivial, Statement.AllEverywhere.of_simplifyAll hP earlier he ss h.2⟩
  | .defaults _ :: ss, h => ⟨trivial, Statement.AllEverywhere.of_simplifyAll hP earlier he ss h.2⟩
  | .subgraph g :: ss, h =>
    ⟨Subgraph.Everywhere.of_simplified hP g h.1,
      Statement.AllEverywhere.of_simplifyAll hP earlier he ss h.2⟩
  | .edge e :: ss, h => by
    rw [Statement.simplifyAll] at h
    split at h
    · -- the blocks of an edge that is left out stand in an earlier edge as well
      rename_i hany
      obtain ⟨f, hf, hsame⟩ := List.any_eq_true.1 hany
      exact ⟨Edge.Everywhere.of_sameEndpoints hsame (he f hf),
        Statement.AllEverywhere.of_simplifyAll hP earlier he ss h⟩
    · exact ⟨h.1, Statement.AllEverywhere.of_simplifyAll hP (e :: earlier)
        (List.forall_mem_cons.2 ⟨h.1, he⟩) ss h.2⟩
termination_by structural ss => ss

/-- What holds of every container that is kept holds of those that are left out. -/
lemma Subgraph.Everywhere.of_simplified (hP : ∀ g, P (g.simplified directed) → P g) :
    (g : Subgraph) → (g.simplified directed).Everywhere P → g.Everywhere P
  | ⟨name, attributes, statements⟩, h =>
    ⟨hP ⟨name, attributes, statements⟩ h.1,
      Statement.AllEverywhere.of_simplifyAll hP [] (fun _ hf => nomatch hf) statements h.2⟩
termination_by structural g => g

end

end Everywhere

end DotGraph
