import DotGraph.Graph.Edit
import DotGraph.Proofs.Containers
import Mathlib.Data.List.Basic

/-!
# Deletion

A deletion takes away what the look-up with the same arguments finds: the match at a place, or all
of them. Nothing else in the container changes, and nothing at all where there is no such match.
-/

namespace DotGraph

/-- Taking the name and the colon off the front of a text leaves the anchor exactly where the text
is that of the endpoint, also where the name holds colons. -/
lemma Endpoint.denotes_iff {e : Endpoint} {text : String} :
    e.denotes text = true ↔ e.text? = some text := by
  cases e with
  | subgraph body => simp [denotes, text?]
  | node name anchor =>
    cases anchor with
    | none => simp [denotes, text?]
    | some anchor =>
      simp only [denotes, text?, Option.any_eq_true, Option.bind_eq_some_iff,
        List.isPrefixOf?_eq_some_iff_append_eq, beq_iff_eq, Option.some.injEq,
        ← String.toList_inj, String.toList_append]
      constructor
      · rintro ⟨_, ⟨_, htext, rfl⟩, rfl⟩
        simpa using htext
      · intro htext
        exact ⟨_, ⟨_, by simpa using htext, rfl⟩, rfl⟩

example : (Endpoint.node ⟨"a:b"⟩ (some "c")).denotes "a:b:c" = true ∧
    (Endpoint.node ⟨"a"⟩ (some "b:c")).denotes "a:b:c" = true := by decide +kernel

/-! ### Look-ups and deletions -/

lemma filter_eq_eraseIdx {α : Type} {p : α → Bool} {before after : List α} {x : α}
    (hx : p x = true) : (before ++ after).filter p =
      ((before ++ x :: after).filter p).eraseIdx (before.filter p).length := by
  rw [List.filter_append, List.filter_append, List.filter_cons_of_pos hx,
    List.eraseIdx_append_of_length_le (Nat.le_refl _), Nat.sub_self, List.eraseIdx_cons_zero]

/-- What a look-up or a deletion asks for. -/
inductive Sought
  | nodes (name : String)
  | edges (source destination : String)
  | subgraphs (name : String)

namespace Sought

/-- Whether a statement is asked for. Nodes and subgraphs are known by their names, edges by the
raw texts of their endpoints. -/
def fits : Sought → Statement → Bool
  | nodes name, .node n => n.name.text == name
  | edges source destination, .edge e =>
    e.source.text? == some source && e.destination.text? == some destination
  | subgraphs name, .subgraph s => s.name.any (·.text == name)
  | _, _ => false

/-- The statements that the look-up finds. -/
def find (g : Subgraph) : Sought → List Statement
  | nodes name => (g.nodesNamed name).map .node
  | edges source destination => (g.edgesBetween source destination).map .edge
  | subgraphs name => (g.subgraphsNamed name).map .subgraph

def erase (g : Subgraph) (index : Option Nat) : Sought → Subgraph × Bool
  | nodes name => g.eraseNodes name index
  | edges source destination => g.eraseEdges source destination index
  | subgraphs name => g.eraseSubgraphs name index

/-- The deletion as an edit of a graph. -/
def edit (index : Option Nat) : Sought → Edit
  | nodes name => .eraseNodes name index
  | edges source destination => .eraseEdges source destination index
  | subgraphs name => .eraseSubgraphs name index

/-- Whether there is a match at the place, or any match. -/
def IsThere (sought : Sought) (g : Subgraph) : Option Nat → Prop
  | some i => i < (sought.find g).length
  | none => sought.find g ≠ []

/-- The statements that are left are those of `g` without the match at the place, or without all
matches. -/
def Removes (sought : Sought) (g left : Subgraph) : Option Nat → Prop
  | some i => ∃ before s after, g.statements = before ++ s :: after ∧
      left.statements = before ++ after ∧ sought.fits s = true ∧
      (before.filter sought.fits).length = i
  | none => left.statements = g.statements.filter (!sought.fits ·)

/-- What a deletion may leave of a container, and its answer. -/
structure IsDeletion (sought : Sought) (index : Option Nat) (g left : Subgraph) (found : Bool) :
    Prop where
  found_iff : found = true ↔ sought.IsThere g index
  removes : found = true → sought.Removes g left index
  unchanged : found = false → left = g
  find_left : sought.find left = index.elim [] (sought.find g).eraseIdx
  name : left.name = g.name
  attributes : left.attributes = g.attributes

variable {sought : Sought} {g : Subgraph} {index : Option Nat}

lemma map_filter_filterMap {α β : Type} {part? : α → Option β} {make : β → α}
    (hpart : ∀ a b, part? a = some b → a = make b) (q : β → Bool) (as : List α) :
    ((as.filterMap part?).filter q).map make = as.filter fun a => (part? a).any q := by
  induction as with
  | nil => rfl
  | cons a as ih =>
    cases ha : part? a with
    | none => simp [ha, ih]
    | some b =>
      obtain rfl := hpart a b ha
      by_cases hb : q b = true <;> simp [ha, hb, ih]

lemma isNodeNamed_eq (name : String) : Statement.isNodeNamed name = (nodes name).fits := by
  funext s
  cases s <;> rfl

lemma isEdgeBetween_eq (source destination : String) :
    Statement.isEdgeBetween source destination = (edges source destination).fits := by
  funext s
  cases s with
  | edge e =>
    rw [Bool.eq_iff_iff]
    simp [Statement.isEdgeBetween, Statement.edge?, fits, Edge.connects, Endpoint.denotes_iff]
  | node | subgraph | defaults => rfl

lemma isSubgraphNamed_eq (name : String) :
    Statement.isSubgraphNamed name = (subgraphs name).fits := by
  funext s
  cases s <;> rfl

/-- A look-up finds the statements that fit, in their order. -/
lemma find_eq (sought : Sought) (g : Subgraph) :
    sought.find g = g.statements.filter sought.fits := by
  cases sought with
  | nodes name =>
    rw [← isNodeNamed_eq]
    refine map_filter_filterMap (fun s n hs => ?_) _ g.statements
    cases s <;> simp_all [Statement.node?]
  | edges source destination =>
    rw [← isEdgeBetween_eq]
    refine map_filter_filterMap (fun s e hs => ?_) _ g.statements
    cases s <;> simp_all [Statement.edge?]
  | subgraphs name =>
    rw [← isSubgraphNamed_eq]
    refine map_filter_filterMap (fun s b hs => ?_) _ g.statements
    cases s <;> simp_all [Statement.subgraph?]

lemma erase_eq (sought : Sought) (g : Subgraph) (index : Option Nat) :
    sought.erase g index = g.eraseMatches sought.fits index := by
  cases sought with
  | nodes name => rw [← isNodeNamed_eq]; rfl
  | edges source destination => rw [← isEdgeBetween_eq]; rfl
  | subgraphs name => rw [← isSubgraphNamed_eq]; rfl

/-! ### The ways in which a deletion ends -/

lemma isDeletion_of_missing (h : ¬ sought.IsThere g index) : IsDeletion sought index g g false where
  found_iff := by simpa using h
  removes := by simp
  unchanged _ := rfl
  find_left := by
    cases index with
    | some i => exact (List.eraseIdx_of_length_le (Nat.le_of_not_lt h)).symm
    | none => exact not_not.1 h
  name := rfl
  attributes := rfl

lemma isDeletion_of_split {before after : List Statement} {s : Statement}
    (hg : g.statements = before ++ s :: after) (hs : sought.fits s = true) :
    IsDeletion sought (some (before.filter sought.fits).length) g
      { g with statements := before ++ after } true where
  found_iff := by
    rw [IsThere, find_eq, hg, List.filter_append, List.filter_cons_of_pos hs, List.length_append,
      List.length_cons]
    simp
  removes _ := ⟨before, s, after, hg, rfl, hs, rfl⟩
  unchanged := by simp
  find_left := by
    rw [Option.elim_some, find_eq, find_eq, hg]
    exact filter_eq_eraseIdx hs
  name := rfl
  attributes := rfl

lemma isDeletion_of_all (h : sought.IsThere g none) :
    IsDeletion sought none g
      { g with statements := g.statements.filter (!sought.fits ·) } true where
  found_iff := by simpa using h
  removes _ := rfl
  unchanged := by simp
  find_left := by
    rw [find_eq]
    simp
  name := rfl
  attributes := rfl

lemma isDeletion_eraseMatches (sought : Sought) (index : Option Nat) (g : Subgraph) :
    IsDeletion sought index g (g.eraseMatches sought.fits index).1
      (g.eraseMatches sought.fits index).2 := by
  rw [Subgraph.eraseMatches]
  cases index with
  | some i =>
    rw [eraseMatches?]
    cases h : eraseMatch? sought.fits i g.statements with
    | some statements =>
      obtain ⟨before, s, after, hg, rfl, hs, rfl⟩ := eraseMatch?_eq_some h
      exact isDeletion_of_split hg hs
    | none =>
      apply isDeletion_of_missing
      rw [IsThere, find_eq, Nat.not_lt]
      exact eraseMatch?_eq_none_iff.1 h
  | none =>
    have hthere : sought.IsThere g none ↔ g.statements.any sought.fits = true := by
      simp [IsThere, find_eq]
    rw [eraseMatches?]
    by_cases hany : g.statements.any sought.fits = true
    · rw [if_pos hany]
      exact isDeletion_of_all (hthere.2 hany)
    · rw [if_neg hany]
      exact isDeletion_of_missing (hthere.not.2 hany)

/-- Deletion takes away what the look-up finds: the match at a place, if there are so many, or all
matches, if there are any. The other statements stay in order, and the container keeps its name,
its attributes and its flags. -/
theorem isDeletion_erase (sought : Sought) (index : Option Nat) :
    (∀ g : Subgraph, sought.find g = g.statements.filter sought.fits ∧
      IsDeletion sought index g (sought.erase g index).1 (sought.erase g index).2) ∧
    ∀ g : Graph, ∃ left found,
      (sought.edit index).apply g = (.found found, g.withBody left) ∧
        IsDeletion sought index g.body left found := by
  have hdeletion (g : Subgraph) :
      IsDeletion sought index g (sought.erase g index).1 (sought.erase g index).2 := by
    rw [erase_eq]
    exact isDeletion_eraseMatches sought index g
  refine ⟨fun g => ⟨find_eq sought g, hdeletion g⟩, fun g => ⟨_, _, ?_, hdeletion g.body⟩⟩
  cases sought <;> rfl

end Sought

end DotGraph
