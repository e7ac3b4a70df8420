import DotGraph.Document.Graphs
import DotGraph.Proofs.AttributeMerge

/-!
# Settled graphs

Defaults are handed down into declarations. A graph is settled in a scope when this has happened
already: at every depth, merging its attributes into the defaults in force gives them back.
-/

namespace DotGraph

namespace Attributes

/-- The attributes start from `b`: setting them on top of `b` changes nothing. -/
def Absorbs (a b : Attributes) : Prop := b.merge a = a

lemma absorbs_empty (a : Attributes) : a.Absorbs .empty := empty_merge a

lemma absorbs_merge (a b : Attributes) : (b.merge a).Absorbs b := by
  rw [Absorbs, ← merge_assoc, merge_self]

lemma Absorbs.merge {a b : Attributes} (h : a.Absorbs b) (c : Attributes) :
    (a.merge c).Absorbs b := by
  rw [Absorbs, ← merge_assoc, h]

end Attributes

/-- The defaults in force behind a statement. -/
def Scope.after (scope : Scope) : Statement → Scope
  | .defaults d => scope.extend d.kind d.attributes
  | _ => scope

mutual

def Statement.Settled (rules : Rules) (scope : Scope) : Statement → Prop
  | .node n => n.attributes.Absorbs (rules.inherited scope.node)
  | .edge e => e.Settled rules scope
  | .subgraph g => g.Settled rules scope
  | .defaults _ => True
termination_by structural s => s

def Edge.Settled (rules : Rules) (scope : Scope) : Edge → Prop
  | ⟨source, destination, attributes⟩ =>
    source.Settled rules scope ∧ destination.Settled rules scope ∧
      attributes.Absorbs (rules.inherited scope.edge)
termination_by structural e => e

def Endpoint.Settled (rules : Rules) (scope : Scope) : Endpoint → Prop
  | .node _ _ => True
  | .subgraph g => g.Settled rules scope
termination_by structural e => e

/-- Statements are settled in order, each in the scope behind those before it. -/
def Subgraph.Settled (rules : Rules) (scope : Scope) : Subgraph → Prop
  | ⟨_, _, statements⟩ => Statement.AllSettled rules scope statements
termination_by structural g => g

def Statement.AllSettled (rules : Rules) (scope : Scope) : List Statement → Prop
  | [] => True
  | s :: ss => s.Settled rules scope ∧ Statement.AllSettled rules (scope.after s) ss
termination_by structural ss => ss

end

variable {rules : Rules}

lemma Subgraph.settled_iff {scope : Scope} {g : Subgraph} :
    g.Settled rules scope ↔ Statement.AllSettled rules scope g.statements := by
  obtain ⟨name, attributes, statements⟩ := g
  rfl

namespace Statement

lemma allSettled_append {scope : Scope} {ss tt : List Statement} :
    AllSettled rules scope (ss ++ tt) ↔
      AllSettled rules scope ss ∧ AllSettled rules (ss.foldl Scope.after scope) tt := by
  induction ss generalizing scope with
  | nil => simp [AllSettled]
  | cons s ss ih => simp [AllSettled, ih, and_assoc]

/-- A statement can be changed in its place if it stays settled wherever it was and hands down
the same defaults. -/
lemma AllSettled.replace {scope : Scope} {ss tt : List Statement} {s t : Statement}
    (h : AllSettled rules scope (ss ++ s :: tt))
    (ht : ∀ scope, s.Settled rules scope → t.Settled rules scope)
    (ha : ∀ scope : Scope, scope.after t = scope.after s) :
    AllSettled rules scope (ss ++ t :: tt) := by
  rw [allSettled_append] at h ⊢
  obtain ⟨hss, hs, htt⟩ := h
  refine ⟨hss, ht _ hs, ?_⟩
  rw [ha]
  exact htt

end Statement

end DotGraph
