import DotGraph.Proofs.ParsedGraph

/-!
# Blocks of a document

The blocks of a declaration, at every depth and at the ends of edges, each with the defaults that
are in force where it opens. The declaration itself is the first of them. Every container of the
graph is read from one of these blocks.
-/

namespace DotGraph

/-- The defaults in force behind a clause. -/
def Scope.past (scope : Scope) : Clause → Scope
  | .defaults kind items => scope.extend kind (.ofItems items)
  | _ => scope

lemma Clause.apply_fst (rules : Rules) (scope : Scope) (g : Subgraph) (c : Clause) :
    (c.apply rules scope g).1 = scope.past c := by
  cases c <;> rfl

lemma Clause.applyAll_cons (rules : Rules) (scope : Scope) (g : Subgraph) (c : Clause)
    (cs : List Clause) : Clause.applyAll rules scope g (c :: cs) =
      Clause.applyAll rules (scope.past c) (c.apply rules scope g).2 cs := by
  rw [← Clause.apply_fst rules scope g c]
  rfl

mutual

def Clause.blocks (scope : Scope) : Clause → List (Scope × Block)
  | .defaults _ _ => []
  | .graph _ => []
  | .assign _ _ => []
  | .node _ _ _ => []
  | .edges first second others _ =>
    first.blocks scope ++ (second.blocks scope ++ Terminal.allBlocks scope others)
  | .block block => block.blocks scope
termination_by structural clause => clause

def Terminal.blocks (scope : Scope) : Terminal → List (Scope × Block)
  | .node _ _ => []
  | .block block => block.blocks scope
termination_by structural terminal => terminal

def Terminal.allBlocks (scope : Scope) : List Terminal → List (Scope × Block)
  | [] => []
  | terminal :: others => terminal.blocks scope ++ Terminal.allBlocks scope others
termination_by structural terminals => terminals

/-- The block and those inside it, each with the defaults in force where it opens. -/
def Block.blocks (scope : Scope) : Block → List (Scope × Block)
  | ⟨name, clauses⟩ => (scope, ⟨name, clauses⟩) :: Clause.allBlocks scope clauses
termination_by structural block => block

def Clause.allBlocks (scope : Scope) : List Clause → List (Scope × Block)
  | [] => []
  | clause :: clauses => clause.blocks scope ++ Clause.allBlocks (scope.past clause) clauses
termination_by structural clauses => clauses

end

namespace Declaration

/-- The declaration as a block. -/
def block (d : Declaration) : Block := ⟨d.name, d.clauses⟩

/-- The blocks of a declaration. No defaults are in force where it opens. -/
def blocks (d : Declaration) : List (Scope × Block) := d.block.blocks {}

/-- How the declared graph is read. -/
def rules (inheritDefaults : Bool) (d : Declaration) : Rules :=
  ⟨inheritDefaults, d.strict, d.kind.isDirected⟩

end Declaration

/-! ### Containers inside a container -/

section Inside

variable {P : Subgraph → Prop} {rules : Rules}

/-- `P` holds of the containers in the statements of `g`, at every depth. -/
def Subgraph.Inside (P : Subgraph → Prop) (g : Subgraph) : Prop :=
  ∀ s ∈ g.statements, s.Everywhere P

namespace Subgraph.Inside

variable {g : Subgraph}

lemma push (h : g.Inside P) {s : Statement} (hs : s.Everywhere P) : (g.push s).Inside P := by
  intro t ht
  rcases List.mem_append.1 ht with ht | ht
  · exact h t ht
  · rw [List.mem_singleton.1 ht]
    exact hs

lemma replace (h : g.Inside P) {as bs : List Statement} {s t : Statement}
    (hg : g.statements = as ++ s :: bs) (ht : s.Everywhere P → t.Everywhere P) :
    Subgraph.Inside P { g with statements := as ++ t :: bs } := by
  rw [Inside, hg] at h
  intro u hu
  rcases List.mem_append.1 hu with hu | hu
  · exact h u (List.mem_append_left _ hu)
  rcases List.mem_cons.1 hu with rfl | hu
  · exact ht (h s (List.mem_append_right _ List.mem_cons_self))
  · exact h u (List.mem_append_right _ (List.mem_cons_of_mem _ hu))

lemma declareNode (h : g.Inside P) (name : Ident) (anchor : Option String)
    (inherited explicit : Attributes) :
    (g.declareNode name anchor inherited explicit).Inside P := by
  rcases g.declareNode_cases name anchor inherited explicit with ⟨as, m, bs, hg, heq⟩ | ⟨-, heq⟩
  · rw [heq]
    exact h.replace hg id
  · rw [heq]
    exact h.push trivial

lemma connect (h : g.Inside P) {e : Edge} (he : e.Everywhere P) :
    (g.connect rules e).Inside P := by
  rcases g.connect_cases rules e with ⟨as, f, bs, hg, heq⟩ | ⟨-, heq⟩
  · rw [heq]
    obtain ⟨source, destination, attributes⟩ := f
    exact h.replace hg id
  · rw [heq]
    exact h.push he

lemma connectAll (attributes : Attributes) {ends : List Endpoint}
    (he : ∀ e ∈ ends, e.Everywhere P) (h : g.Inside P) :
    (g.connectAll rules attributes ends).Inside P := by
  induction ends generalizing g with
  | nil => exact h
  | cons source ends ih =>
    rw [List.forall_mem_cons] at he
    cases ends with
    | nil => exact h
    | cons destination ends =>
      have hedge : Edge.Everywhere P ⟨source, destination, attributes⟩ :=
        ⟨he.1, he.2 destination List.mem_cons_self⟩
      rw [Subgraph.connectAll]
      exact ih he.2 (h.connect hedge)

end Subgraph.Inside

/-! ### Containers and blocks -/

mutual

lemma apply_inside : (c : Clause) → (scope : Scope) → {g : Subgraph} → g.Inside P →
    (∀ q ∈ c.blocks scope, P (q.2.subgraph rules q.1)) → (c.apply rules scope g).2.Inside P
  | .defaults _ _, _, _, h, _ => h.push trivial
  | .graph _, _, _, h, _ => h
  | .assign _ _, _, _, h, _ => h
  | .node name anchor items, scope, _, h, _ =>
    h.declareNode name anchor (rules.inherited scope.node) (.ofItems items)
  | .edges first second others items, scope, _, h, hP => by
    simp only [Clause.blocks, List.forall_mem_append] at hP
    refine .connectAll _ ?_ h
    rw [List.forall_mem_cons, List.forall_mem_cons]
    exact ⟨endpoint_everywhere first scope hP.1, endpoint_everywhere second scope hP.2.1,
      endpoints_everywhere others scope hP.2.2⟩
  | .block b, scope, _, h, hP => h.push (subgraph_everywhere b scope hP)
termination_by structural c => c

lemma applyAll_inside : (cs : List Clause) → (scope : Scope) → {g : Subgraph} → g.Inside P →
    (∀ q ∈ Clause.allBlocks scope cs, P (q.2.subgraph rules q.1)) →
    (Clause.applyAll rules scope g cs).Inside P
  | [], _, _, h, _ => h
  | c :: cs, scope, g, h, hP => by
    simp only [Clause.allBlocks, List.forall_mem_append] at hP
    rw [Clause.applyAll_cons]
    exact applyAll_inside cs (scope.past c) (apply_inside c scope h hP.1) hP.2
termination_by structural cs => cs

lemma endpoint_everywhere : (t : Terminal) → (scope : Scope) →
    (∀ q ∈ t.blocks scope, P (q.2.subgraph rules q.1)) → (t.endpoint rules scope).Everywhere P
  | .node _ _, _, _ => trivial
  | .block b, scope, hP => subgraph_everywhere b scope hP
termination_by structural t => t

lemma endpoints_everywhere : (ts : List Terminal) → (scope : Scope) →
    (∀ q ∈ Terminal.allBlocks scope ts, P (q.2.subgraph rules q.1)) →
    ∀ e ∈ Terminal.endpoints rules scope ts, e.Everywhere P
  | [], _, _ => by simp [Terminal.endpoints]
  | t :: ts, scope, hP => by
    simp only [Terminal.allBlocks, List.forall_mem_append] at hP
    rw [Terminal.endpoints, List.forall_mem_cons]
    exact ⟨endpoint_everywhere t scope hP.1, endpoints_everywhere ts scope hP.2⟩
termination_by structural ts => ts

/-- What holds of the containers that the blocks are read as holds of all containers. -/
theorem subgraph_everywhere : (b : Block) → (scope : Scope) →
    (∀ q ∈ b.blocks scope, P (q.2.subgraph rules q.1)) → (b.subgraph rules scope).Everywhere P
  | ⟨name, clauses⟩, scope, hP => by
    rw [Block.blocks, List.forall_mem_cons] at hP
    have hempty : (Subgraph.empty name).Inside P := fun _ hs => nomatch hs
    exact Subgraph.everywhere_iff.2 ⟨hP.1, applyAll_inside clauses scope hempty hP.2⟩
termination_by structural b => b

end

/-- Every container of a graph is read from a block of the declaration. -/
theorem Declaration.everywhere_exists_block (inheritDefaults : Bool) (d : Declaration) :
    (d.toGraph inheritDefaults).body.Everywhere fun g =>
      ∃ q ∈ d.blocks, g = q.2.subgraph (d.rules inheritDefaults) q.1 :=
  subgraph_everywhere d.block {} fun q hq => ⟨q, hq, rfl⟩

end Inside

end DotGraph
