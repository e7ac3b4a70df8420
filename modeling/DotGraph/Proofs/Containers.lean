import DotGraph.Graph
import Mathlib.Tactic.Common

/-!
# Containers

What the operations on a container do to its statements. The first statement of a kind is changed
in its place and all others are kept, or a statement is appended. An edge that is merged in either
meets one with its endpoints or is appended. One match is taken out and all others are kept.
-/

namespace DotGraph

lemma Ident.eq_of_text {x y : Ident} (h : x.text = y.text) : x = y := by
  cases x
  cases y
  cases h
  rfl

lemma modifyFirst?_eq_none_iff {α : Type} {q : α → Bool} {f : α → α} {xs : List α} :
    modifyFirst? q f xs = none ↔ ∀ x ∈ xs, q x = false := by
  induction xs with
  | nil => simp [modifyFirst?]
  | cons x xs ih =>
    rw [modifyFirst?, List.forall_mem_cons, ← ih]
    split
    · rename_i hq
      simp [hq]
    · rename_i hq
      simp [hq]

lemma modifyFirst?_eq_some {α : Type} {q : α → Bool} {f : α → α} {xs ys : List α}
    (h : modifyFirst? q f xs = some ys) :
    ∃ as x bs, xs = as ++ x :: bs ∧ q x = true ∧ ys = as ++ f x :: bs := by
  induction xs generalizing ys with
  | nil => simp [modifyFirst?] at h
  | cons x xs ih =>
    rw [modifyFirst?] at h
    split at h
    · rename_i hq
      cases h
      exact ⟨[], x, xs, rfl, hq, rfl⟩
    · obtain ⟨zs, hz, rfl⟩ := Option.map_eq_some_iff.1 h
      obtain ⟨as, y, bs, rfl, hy, rfl⟩ := ih hz
      exact ⟨x :: as, y, bs, rfl, hy, rfl⟩

lemma eraseMatch?_eq_some {α : Type} {p : α → Bool} {i : Nat} {xs ys : List α}
    (h : eraseMatch? p i xs = some ys) : ∃ before x after, xs = before ++ x :: after ∧
      ys = before ++ after ∧ p x = true ∧ (before.filter p).length = i := by
  fun_induction eraseMatch? p i xs generalizing ys with
  | case1 => cases h
  | case2 x xs hx =>
    cases h
    exact ⟨[], x, xs, rfl, rfl, hx, rfl⟩
  | case3 x xs hx i ih =>
    obtain ⟨zs, hzs, rfl⟩ := Option.map_eq_some_iff.1 h
    obtain ⟨before, y, after, rfl, rfl, hy, hi⟩ := ih hzs
    exact ⟨x :: before, y, after, rfl, rfl, hy, by simp [hx, hi]⟩
  | case4 i x xs hx ih =>
    obtain ⟨zs, hzs, rfl⟩ := Option.map_eq_some_iff.1 h
    obtain ⟨before, y, after, rfl, rfl, hy, hi⟩ := ih hzs
    exact ⟨x :: before, y, after, rfl, rfl, hy, by simp [hx, hi]⟩

lemma eraseMatch?_eq_none_iff {α : Type} {p : α → Bool} {i : Nat} {xs : List α} :
    eraseMatch? p i xs = none ↔ (xs.filter p).length ≤ i := by
  fun_induction eraseMatch? p i xs with
  | case1 => simp
  | case2 x xs hx => simp [hx]
  | case3 x xs hx i ih => simp [hx, ih]
  | case4 i x xs hx ih => simp [hx, ih]

namespace Statement

lemma node?_eq_some_iff {s : Statement} {n : Node} : s.node? = some n ↔ s = .node n := by
  cases s <;> simp [node?]

lemma edge?_eq_some_iff {s : Statement} {e : Edge} : s.edge? = some e ↔ s = .edge e := by
  cases s <;> simp [edge?]

lemma subgraph?_eq_some_iff {s : Statement} {g : Subgraph} :
    s.subgraph? = some g ↔ s = .subgraph g := by
  cases s <;> simp [subgraph?]

end Statement

namespace Subgraph

lemma mem_nodes {g : Subgraph} {n : Node} : n ∈ g.nodes ↔ .node n ∈ g.statements := by
  simp only [nodes, List.mem_filterMap, Statement.node?_eq_some_iff, exists_eq_right]

lemma mem_edges {g : Subgraph} {e : Edge} : e ∈ g.edges ↔ .edge e ∈ g.statements := by
  simp only [edges, List.mem_filterMap, Statement.edge?_eq_some_iff, exists_eq_right]

lemma mem_subgraphs {g h : Subgraph} : h ∈ g.subgraphs ↔ .subgraph h ∈ g.statements := by
  simp only [subgraphs, List.mem_filterMap, Statement.subgraph?_eq_some_iff, exists_eq_right]

lemma nodes_push (g : Subgraph) (s : Statement) : (g.push s).nodes = g.nodes ++ s.node?.toList := by
  rw [nodes, push, List.filterMap_append]
  cases hs : s.node? <;> simp [nodes, hs]

lemma edges_push (g : Subgraph) (s : Statement) : (g.push s).edges = g.edges ++ s.edge?.toList := by
  rw [edges, push, List.filterMap_append]
  cases hs : s.edge? <;> simp [edges, hs]

/-- An edge between new endpoints is appended. -/
lemma mergeEdge_of_new {g : Subgraph} {directed : Bool} {e : Edge}
    (h : ∀ f ∈ g.edges, f.sameEndpoints directed e = false) :
    g.mergeEdge directed e = g.addEdge e := by
  rw [mergeEdge, modifyFirst?_eq_none_iff.2]
  · rfl
  · intro s hs
    cases s with
    | edge f => exact h f (mem_edges.2 hs)
    | node | subgraph | defaults => rfl

/-- An edge is merged into one between its endpoints, or it is appended where there is none. -/
theorem mergeEdge_cases (g : Subgraph) (directed : Bool) (e : Edge) :
    (∃ as f bs, g.statements = as ++ .edge f :: bs ∧ f.sameEndpoints directed e = true ∧
      g.mergeEdge directed e = { g with
        statements :=
          as ++ .edge { f with attributes := f.attributes.merge e.attributes } :: bs }) ∨
    (∀ f ∈ g.edges, f.sameEndpoints directed e = false) ∧
      g.mergeEdge directed e = g.addEdge e := by
  by_cases hnew : ∀ f ∈ g.edges, f.sameEndpoints directed e = false
  · exact .inr ⟨hnew, mergeEdge_of_new hnew⟩
  · refine .inl ?_
    simp only [not_forall, Bool.not_eq_false] at hnew
    obtain ⟨f, hf, hsame⟩ := hnew
    rw [mergeEdge]
    cases hm : modifyFirst? _ _ g.statements with
    | none =>
      have := modifyFirst?_eq_none_iff.1 hm _ (mem_edges.1 hf)
      simp [Statement.edge?, hsame] at this
    | some ss =>
      obtain ⟨as, s, bs, hs, hq, rfl⟩ := modifyFirst?_eq_some hm
      cases s with
      | edge f => exact ⟨as, f, bs, hs, by simpa [Statement.edge?] using hq, rfl⟩
      | node | subgraph | defaults => simp [Statement.edge?] at hq

end Subgraph

end DotGraph
