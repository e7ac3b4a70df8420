import DotGraph.Proofs.DocumentIdents
import DotGraph.Proofs.Rebuild

/-!
# Parsed graphs

What holds of every container while its clauses are worked off, and so of every graph that is read
from a source: it is proper, and it is settled in the scope that it was opened in. A declaration
either appends a statement or merges attributes into one that is there.
-/

namespace DotGraph

/-! ### Attributes of items -/

namespace Keyed

lemma mem_put {κ α : Type} [DecidableEq κ] {k : κ} {v : α} {l : List (κ × α)} {e : κ × α}
    (h : e ∈ put k v l) : e = (k, v) ∨ e ∈ l := by
  induction l with
  | nil => simpa [put] using h
  | cons e' l ih =>
    obtain ⟨k', v'⟩ := e'
    rw [put] at h
    split at h
    · rcases List.mem_cons.1 h with rfl | h
      · exact .inl rfl
      · exact .inr (List.mem_cons_of_mem _ h)
    · rcases List.mem_cons.1 h with rfl | h
      · exact .inr List.mem_cons_self
      · exact (ih h).imp id (List.mem_cons_of_mem _)

end Keyed

namespace Attributes

variable {W : Ident → Prop}

lemma allIdents_empty : Attributes.AllIdents W .empty := by simp [AllIdents, empty]

lemma AllIdents.set {a : Attributes} (h : a.AllIdents W) {name : Ident} {value : AttrValue}
    (hn : W name) (hv : ∀ x ∈ value.ident?, W x) : (a.set name value).AllIdents W := by
  intro e he
  rcases Keyed.mem_put he with rfl | he
  · exact ⟨hn, hv⟩
  · exact h e he

lemma AllIdents.erase {a : Attributes} (h : a.AllIdents W) (name : Ident) :
    (a.erase name).AllIdents W := fun e he => h e (List.mem_filter.1 he).1

lemma AllIdents.merge {a b : Attributes} (ha : a.AllIdents W) (hb : b.AllIdents W) :
    (a.merge b).AllIdents W := by
  have hfold (l : List Item) (hl : AllItems W l) (acc : Attributes) (hacc : acc.AllIdents W) :
      (l.foldl (fun acc e => acc.set e.1 e.2) acc).AllIdents W := by
    induction l generalizing acc with
    | nil => exact hacc
    | cons e l ih =>
      have he := hl e List.mem_cons_self
      exact ih (fun f hf => hl f (List.mem_cons_of_mem _ hf)) _ (hacc.set he.1 he.2)
  exact hfold b.entries hb a ha

lemma allIdents_ofItems {items : List Item} (h : AllItems W items) :
    (ofItems items).AllIdents W := by
  have hfold (l : List Item) (hl : AllItems W l) (acc : Attributes) (hacc : acc.AllIdents W) :
      (l.foldl (fun acc e => (acc.erase e.1).set e.1 e.2) acc).AllIdents W := by
    induction l generalizing acc with
    | nil => exact hacc
    | cons e l ih =>
      have he := hl e List.mem_cons_self
      exact ih (fun f hf => hl f (List.mem_cons_of_mem _ hf)) _
        ((hacc.erase e.1).set he.1 he.2)
  exact hfold items h .empty allIdents_empty

end Attributes

/-! ### What a declaration does -/

namespace Subgraph

/-- A node is merged into one of its name, or it is appended where there is none. -/
lemma declareNode_cases (g : Subgraph) (name : Ident) (anchor : Option String)
    (inherited explicit : Attributes) :
    (∃ as m bs, g.statements = as ++ .node m :: bs ∧
      g.declareNode name anchor inherited explicit = { g with
        statements := as ++ .node { m with attributes := m.attributes.merge explicit } :: bs }) ∨
    (∀ m ∈ g.nodes, m.name ≠ name) ∧
      g.declareNode name anchor inherited explicit =
        g.addNode ⟨name, anchor, inherited.merge explicit⟩ := by
  cases hm : g.modifyNode? name.text fun n =>
      { n with attributes := n.attributes.merge explicit } with
  | none =>
    have hnew : ∀ m ∈ g.nodes, m.name ≠ name := by
      rintro m hmem rfl
      rw [modifyNode?, Option.map_eq_none_iff, modifyFirst?_eq_none_iff] at hm
      simpa [Statement.isNodeNamed, Statement.node?] using hm _ (mem_nodes.1 hmem)
    exact .inr ⟨hnew, declareNode_of_new hnew anchor inherited explicit⟩
  | some g' =>
    refine .inl ?_
    rw [declareNode, hm]
    obtain ⟨ss, hss, rfl⟩ := Option.map_eq_some_iff.1 hm
    obtain ⟨as, s, bs, hs, hq, rfl⟩ := modifyFirst?_eq_some hss
    cases s with
    | node m => exact ⟨as, m, bs, hs, rfl⟩
    | edge | subgraph | defaults => simp [Statement.isNodeNamed, Statement.node?] at hq

/-- In strict graphs an edge is merged into one between its endpoints. Any other is appended. -/
lemma connect_cases (g : Subgraph) (rules : Rules) (e : Edge) :
    (∃ as f bs, g.statements = as ++ .edge f :: bs ∧
      g.connect rules e = { g with
        statements :=
          as ++ .edge { f with attributes := f.attributes.merge e.attributes } :: bs }) ∨
    (rules.strict = true → ∀ f ∈ g.edges, f.sameEndpoints rules.directed e = false) ∧
      g.connect rules e = g.addEdge e := by
  by_cases hstrict : rules.strict = true
  · rw [connect, if_pos hstrict]
    rcases g.mergeEdge_cases rules.directed e with ⟨as, f, bs, hg, -, heq⟩ | ⟨hnew, heq⟩
    · exact .inl ⟨as, f, bs, hg, heq⟩
    · exact .inr ⟨fun _ => hnew, heq⟩
  · rw [connect, if_neg hstrict]
    exact .inr ⟨fun hs => absurd hs hstrict, rfl⟩

end Subgraph

/-! ### What is kept up while clauses are worked off -/

/-- The container `g` was opened in the scope `start` and has reached the scope `now`. -/
structure Builds (W : Ident → Prop) (rules : Rules) (start now : Scope) (g : Subgraph) : Prop where
  proper : rules.Proper W g
  deep : ∀ s ∈ g.statements, s.Everywhere (rules.Proper W)
  settled : Statement.AllSettled rules start g.statements
  scope : g.statements.foldl Scope.after start = now

namespace Builds

variable {W : Ident → Prop} {rules : Rules} {start now : Scope} {g : Subgraph}

lemma empty {name : Option Ident} (hn : ∀ x ∈ name, W x) :
    Builds W rules start start (.empty name) where
  proper := ⟨hn, Attributes.allIdents_empty, by simp [Subgraph.empty], List.nodup_nil,
    fun _ => List.Pairwise.nil⟩
  deep := by simp [Subgraph.empty]
  settled := trivial
  scope := rfl

lemma withAttributes (h : Builds W rules start now g) {a : Attributes} (ha : a.AllIdents W) :
    Builds W rules start now { g with attributes := a } :=
  ⟨⟨h.proper.name, ha, h.proper.statements, h.proper.nodes, h.proper.edges⟩, h.deep, h.settled,
    h.scope⟩

/-- A statement is appended that meets no node of its name and, in strict graphs, no edge of its
endpoints. -/
lemma push (h : Builds W rules start now g) {s : Statement} (hi : s.AllIdents W)
    (he : s.Everywhere (rules.Proper W)) (hs : s.Settled rules now)
    (hn : ∀ n ∈ s.node?, ∀ m ∈ g.nodes, m.name ≠ n.name)
    (hd : ∀ e ∈ s.edge?, rules.strict = true →
      ∀ f ∈ g.edges, f.sameEndpoints rules.directed e = false) :
    Builds W rules start (now.after s) (g.push s) where
  proper := by
    refine ⟨h.proper.name, h.proper.attributes, ?_, h.proper.nodes.push hn, fun hstrict => ?_⟩
    · simpa [Subgraph.push, or_imp, forall_and, hi] using h.proper.statements
    · exact (h.proper.edges hstrict).push fun e he => hd e he hstrict
  deep := by simpa [Subgraph.push, or_imp, forall_and, he] using h.deep
  settled := by
    rw [Subgraph.push, Statement.allSettled_append, h.scope]
    exact ⟨h.settled, hs, trivial⟩
  scope := by
    rw [Subgraph.push, List.foldl_append, h.scope]
    rfl

/-- A statement is changed in its place and keeps its name or its endpoints. -/
lemma replace (h : Builds W rules start now g) {as bs : List Statement} {s t : Statement}
    (hg : g.statements = as ++ s :: bs) (hi : t.AllIdents W) (he : t.Everywhere (rules.Proper W))
    (hs : ∀ scope, s.Settled rules scope → t.Settled rules scope)
    (ha : ∀ scope : Scope, scope.after t = scope.after s)
    (hn : t.node?.map Node.name = s.node?.map Node.name)
    (hd : t.edge?.map Edge.bare = s.edge?.map Edge.bare) :
    Builds W rules start now { g with statements := as ++ t :: bs } where
  proper := by
    refine ⟨h.proper.name, h.proper.attributes, ?_, h.proper.nodes.replace hg hn, fun hstrict => ?_⟩
    · have := h.proper.statements
      rw [hg] at this
      simp only [List.mem_append, List.mem_cons] at this ⊢
      rintro u (hu | rfl | hu)
      · exact this u (.inl hu)
      · exact hi
      · exact this u (.inr (.inr hu))
    · exact (h.proper.edges hstrict).replace hg hd
  deep := by
    have := h.deep
    rw [hg] at this
    simp only [List.mem_append, List.mem_cons] at this ⊢
    rintro u (hu | rfl | hu)
    · exact this u (.inl hu)
    · exact he
    · exact this u (.inr (.inr hu))
  settled := by
    have := h.settled
    rw [hg] at this
    exact this.replace hs ha
  scope := by
    have := h.scope
    rw [hg] at this
    simpa only [List.foldl_append, List.foldl_cons, ha] using this

lemma declareNode (h : Builds W rules start now g) {name : Ident} {anchor : Option String}
    {explicit : Attributes} (hn : W name) (ha : ∀ text ∈ anchor, IsAnchorText W text)
    (hi : (rules.inherited now.node).AllIdents W) (hx : explicit.AllIdents W) :
    Builds W rules start now
      (g.declareNode name anchor (rules.inherited now.node) explicit) := by
  rcases g.declareNode_cases name anchor (rules.inherited now.node) explicit with
    ⟨as, m, bs, hg, heq⟩ | ⟨hnew, heq⟩ <;> rw [heq]
  · have hm : m.AllIdents W := h.proper.statements (.node m) (by rw [hg]; simp)
    exact h.replace hg ⟨hm.1, hm.2.1, hm.2.2.merge hx⟩ trivial (fun _ hs => hs.merge explicit)
      (fun _ => rfl) rfl rfl
  · refine h.push (s := .node _) ⟨hn, ha, hi.merge hx⟩ trivial (Attributes.absorbs_merge _ _) ?_ ?_
    · rintro n ⟨⟩ m hm
      exact hnew m hm
    · rintro e ⟨⟩

lemma connect (h : Builds W rules start now g) {e : Edge} (hi : (Statement.edge e).AllIdents W)
    (he : e.Everywhere (rules.Proper W)) (hs : e.Settled rules now) :
    Builds W rules start now (g.connect rules e) := by
  rcases g.connect_cases rules e with ⟨as, f, bs, hg, heq⟩ | ⟨hnew, heq⟩ <;> rw [heq]
  · have hf : (Statement.edge f).AllIdents W := h.proper.statements _ (by rw [hg]; simp)
    have hdeep : f.Everywhere (rules.Proper W) := h.deep (.edge f) (by rw [hg]; simp)
    obtain ⟨source, destination, attributes⟩ := f
    exact h.replace hg ⟨hf.1, hf.2.1, hf.2.2.merge hi.2.2⟩ hdeep
      (fun _ hs => ⟨hs.1, hs.2.1, hs.2.2.merge _⟩) (fun _ => rfl) rfl rfl
  · refine h.push (s := .edge e) hi he hs ?_ ?_
    · rintro n ⟨⟩
    · rintro f ⟨⟩ hstrict
      exact hnew hstrict

lemma connectAll {attributes : Attributes} (ha : attributes.AllIdents W)
    (hs : attributes.Absorbs (rules.inherited now.edge)) {ends : List Endpoint}
    (he : ∀ e ∈ ends, e.AllIdents W ∧ e.Everywhere (rules.Proper W) ∧ e.Settled rules now)
    (h : Builds W rules start now g) :
    Builds W rules start now (g.connectAll rules attributes ends) := by
  induction ends generalizing g with
  | nil => exact h
  | cons source ends ih =>
    cases ends with
    | nil => exact h
    | cons destination ends =>
      obtain ⟨hi, hdeep, hset⟩ := he source (by simp)
      obtain ⟨hi', hdeep', hset'⟩ := he destination (by simp)
      rw [Subgraph.connectAll]
      apply ih (fun e hmem => he e (List.mem_cons_of_mem _ hmem))
      exact h.connect ⟨hi, hi', ha⟩ ⟨hdeep, hdeep'⟩ ⟨hset, hset', hs⟩

end Builds

/-! ### Whole graphs -/

/-- The defaults in force hold identifiers that satisfy `W` only. -/
def Scope.AllIdents (W : Ident → Prop) (scope : Scope) : Prop :=
  scope.node.AllIdents W ∧ scope.edge.AllIdents W

section Graphs

variable {W : Ident → Prop} {rules : Rules}

lemma Scope.AllIdents.extend {scope : Scope} (h : scope.AllIdents W) (kind : ElementKind)
    {a : Attributes} (ha : a.AllIdents W) : (scope.extend kind a).AllIdents W := by
  cases kind with
  | node => exact ⟨h.1.merge ha, h.2⟩
  | edge => exact ⟨h.1, h.2.merge ha⟩

lemma Attributes.AllIdents.inherited {a : Attributes} (h : a.AllIdents W) :
    (rules.inherited a).AllIdents W := by
  rw [Rules.inherited]
  split
  · exact h
  · exact Attributes.allIdents_empty

mutual

/-- One clause keeps up what the container and its scope are known for. -/
theorem apply_builds :
    (c : Clause) → c.AllIdents W → {start now : Scope} → {g : Subgraph} → now.AllIdents W →
    Builds W rules start now g →
    (c.apply rules now g).1.AllIdents W ∧
      Builds W rules start (c.apply rules now g).1 (c.apply rules now g).2
  | .defaults kind items, hc, start, now, g, hnow, hg => by
    have ha := Attributes.allIdents_ofItems hc
    refine ⟨hnow.extend kind ha, ?_⟩
    exact hg.push (s := .defaults ⟨kind, .ofItems items⟩) ha trivial trivial
      (by rintro n ⟨⟩) (by rintro e ⟨⟩)
  | .graph items, hc, start, now, g, hnow, hg =>
    ⟨hnow, hg.withAttributes (hg.proper.attributes.merge (Attributes.allIdents_ofItems hc))⟩
  | .assign name value, hc, start, now, g, hnow, hg => by
    refine ⟨hnow, hg.withAttributes (hg.proper.attributes.set hc.1 ?_)⟩
    rintro x ⟨⟩
    exact hc.2
  | .node name anchor items, hc, start, now, g, hnow, hg =>
    ⟨hnow, hg.declareNode hc.1 hc.2.1 hnow.1.inherited (Attributes.allIdents_ofItems hc.2.2)⟩
  | .edges first second others items, hc, start, now, g, hnow, hg => by
    obtain ⟨hfirst, hsecond, hothers, hitems⟩ := hc
    have ha : ((rules.inherited now.edge).merge (.ofItems items)).AllIdents W :=
      hnow.2.inherited.merge (Attributes.allIdents_ofItems hitems)
    refine ⟨hnow, .connectAll ha (Attributes.absorbs_merge _ _) ?_ hg⟩
    rw [List.forall_mem_cons, List.forall_mem_cons]
    exact ⟨endpoint_builds first hfirst hnow, endpoint_builds second hsecond hnow,
      endpoints_builds others hothers hnow⟩
  | .block b, hc, start, now, g, hnow, hg => by
    obtain ⟨hdeep, hset⟩ := subgraph_builds b hc hnow
    exact ⟨hnow, hg.push (s := .subgraph _) trivial hdeep hset (by rintro n ⟨⟩) (by rintro e ⟨⟩)⟩
termination_by structural c => c

theorem applyAll_builds :
    (cs : List Clause) → Clause.ListAllIdents W cs → {start now : Scope} → {g : Subgraph} →
    now.AllIdents W → Builds W rules start now g →
    ∃ last, Builds W rules start last (Clause.applyAll rules now g cs)
  | [], _, _, now, _, _, hg => ⟨now, hg⟩
  | c :: cs, hcs, start, now, g, hnow, hg => by
    obtain ⟨hnow', hg'⟩ := apply_builds c hcs.1 hnow hg
    exact applyAll_builds cs hcs.2 hnow' hg'
termination_by structural cs => cs

theorem endpoint_builds :
    (t : Terminal) → t.AllIdents W → {scope : Scope} → scope.AllIdents W →
    (t.endpoint rules scope).AllIdents W ∧ (t.endpoint rules scope).Everywhere (rules.Proper W) ∧
      (t.endpoint rules scope).Settled rules scope
  | .node _ _, ht, _, _ => ⟨ht, trivial, trivial⟩
  | .block b, ht, _, hscope => ⟨trivial, subgraph_builds b ht hscope⟩
termination_by structural t => t

theorem endpoints_builds :
    (ts : List Terminal) → Terminal.ListAllIdents W ts → {scope : Scope} → scope.AllIdents W →
    ∀ e ∈ Terminal.endpoints rules scope ts,
      e.AllIdents W ∧ e.Everywhere (rules.Proper W) ∧ e.Settled rules scope
  | [], _, scope, _ => by simp [Terminal.endpoints]
  | t :: ts, hts, scope, hscope => by
    rw [Terminal.endpoints, List.forall_mem_cons]
    exact ⟨endpoint_builds t hts.1 hscope, endpoints_builds ts hts.2 hscope⟩
termination_by structural ts => ts

theorem subgraph_builds :
    (b : Block) → b.AllIdents W → {scope : Scope} → scope.AllIdents W →
    (b.subgraph rules scope).Everywhere (rules.Proper W) ∧
      (b.subgraph rules scope).Settled rules scope
  | ⟨name, clauses⟩, hb, scope, hscope => by
    obtain ⟨last, h⟩ := applyAll_builds clauses hb.2 hscope (.empty hb.1)
    rw [Block.subgraph, Subgraph.everywhere_iff, Subgraph.settled_iff]
    exact ⟨⟨h.proper, h.deep⟩, h.settled⟩
termination_by structural b => b

end

/-- A graph that is read is proper at every depth and settled. -/
theorem toGraph_builds {inheritDefaults : Bool} {d : Declaration} (hd : d.AllIdents W) :
    (d.toGraph inheritDefaults).body.Everywhere (Subgraph.IsProper W d.strict d.kind.isDirected) ∧
      (d.toGraph inheritDefaults).body.Settled ⟨inheritDefaults, d.strict, d.kind.isDirected⟩
        {} := by
  have hscope : Scope.AllIdents W {} := ⟨Attributes.allIdents_empty, Attributes.allIdents_empty⟩
  exact @subgraph_builds W ⟨inheritDefaults, d.strict, d.kind.isDirected⟩ ⟨d.name, d.clauses⟩ hd
    {} hscope

end Graphs

end DotGraph
