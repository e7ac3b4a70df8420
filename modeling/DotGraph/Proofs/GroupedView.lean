import DotGraph.View
import DotGraph.Proofs.WellFormedGraph
import Mathlib.Data.List.Forall2

/-!
# Grouped views

A view tells everything of a graph that was read, except how the kinds of statements were
interleaved in each container. The ends of edges are the point where this could fail, for they are
texts of a name and an anchor: the name is found again at the front of the text, because it is one
token and no token runs into the colon behind it.
-/

namespace DotGraph

open Scan Grammar

/-! ### Graphs with the same groups -/

def Statement.defaults? : Statement → Option Defaults
  | .defaults d => some d
  | _ => none

def Subgraph.defaults (g : Subgraph) : List Defaults := g.statements.filterMap Statement.defaults?

mutual

/-- The containers are the same, except for the interleaving of their defaults, nodes, edges and
subgraphs, and so are the blocks in them. -/
inductive Subgraph.SameGroups : Subgraph → Subgraph → Prop
  | intro {g h : Subgraph} (name : g.name = h.name) (attributes : g.attributes = h.attributes)
      (defaults : g.defaults = h.defaults) (nodes : g.nodes = h.nodes)
      (edges : List.Forall₂ Edge.SameGroups g.edges h.edges)
      (subgraphs : List.Forall₂ Subgraph.SameGroups g.subgraphs h.subgraphs) :
      Subgraph.SameGroups g h

inductive Edge.SameGroups : Edge → Edge → Prop
  | intro {e f : Edge} (source : Endpoint.SameGroups e.source f.source)
      (destination : Endpoint.SameGroups e.destination f.destination)
      (attributes : e.attributes = f.attributes) : Edge.SameGroups e f

inductive Endpoint.SameGroups : Endpoint → Endpoint → Prop
  | node (name : Ident) (anchor : Option String) :
      Endpoint.SameGroups (.node name anchor) (.node name anchor)
  | subgraph {g h : Subgraph} (body : Subgraph.SameGroups g h) :
      Endpoint.SameGroups (.subgraph g) (.subgraph h)

end

/-! ### Blocks -/

/-- The block that an edge ends in. -/
def Endpoint.block? : Endpoint → Option Subgraph
  | .node _ _ => none
  | .subgraph g => some g

/-- The containers that stand in a statement. -/
def Statement.blocks : Statement → List Subgraph
  | .edge e => e.source.block?.toList ++ e.destination.block?.toList
  | .subgraph g => [g]
  | _ => []

lemma Endpoint.sizeOf_lt_of_mem_block? {e : Endpoint} {block : Subgraph} (h : block ∈ e.block?) :
    sizeOf block < sizeOf e := by
  cases e with
  | node => cases h
  | subgraph g =>
    cases h
    simp

lemma Statement.sizeOf_lt_of_mem_blocks {s : Statement} {block : Subgraph}
    (h : block ∈ s.blocks) : sizeOf block < sizeOf s := by
  cases s with
  | edge e =>
    obtain ⟨source, destination, attributes⟩ := e
    simp only [Statement.edge.sizeOf_spec, Edge.mk.sizeOf_spec]
    rcases List.mem_append.1 h with h | h
    · have hlt : sizeOf block < sizeOf source :=
        Endpoint.sizeOf_lt_of_mem_block? (Option.mem_toList.1 h)
      omega
    · have hlt : sizeOf block < sizeOf destination :=
        Endpoint.sizeOf_lt_of_mem_block? (Option.mem_toList.1 h)
      omega
  | subgraph g =>
    rw [List.mem_singleton.1 h]
    simp
  | node | defaults => simp [Statement.blocks] at h

namespace Subgraph

lemma sizeOf_lt_of_mem_statements {g : Subgraph} {s : Statement} (h : s ∈ g.statements) :
    sizeOf s < sizeOf g := by
  obtain ⟨name, attributes, statements⟩ := g
  have hlist : sizeOf s < sizeOf statements := List.sizeOf_lt_of_mem h
  simp only [Subgraph.mk.sizeOf_spec]
  omega

/-- What holds of a container whenever it holds of the blocks in its statements holds of all. -/
@[elab_as_elim]
theorem block_induction {motive : Subgraph → Prop}
    (container : ∀ g, (∀ s ∈ g.statements, ∀ block ∈ s.blocks, motive block) → motive g)
    (g : Subgraph) : motive g :=
  container g fun _ hs block hb =>
    have := Nat.lt_trans (Statement.sizeOf_lt_of_mem_blocks hb) (sizeOf_lt_of_mem_statements hs)
    block_induction container block
termination_by sizeOf g

lemma Everywhere.block {P : Subgraph → Prop} {g : Subgraph} (h : g.Everywhere P) {s : Statement}
    (hs : s ∈ g.statements) {block : Subgraph} (hb : block ∈ s.blocks) : block.Everywhere P := by
  have hstatement := (everywhere_iff.1 h).2 s hs
  cases s with
  | edge e =>
    obtain ⟨source, destination, attributes⟩ := e
    obtain ⟨hsource, hdestination⟩ : source.Everywhere P ∧ destination.Everywhere P := hstatement
    rcases List.mem_append.1 hb with hb | hb
    · cases source <;> cases Option.mem_toList.1 hb
      exact hsource
    · cases destination <;> cases Option.mem_toList.1 hb
      exact hdestination
  | subgraph body =>
    rw [List.mem_singleton.1 hb]
    exact hstatement
  | node | defaults => simp [Statement.blocks] at hb

end Subgraph

/-! ### Groups of a view -/

lemma Statement.group_eq (ss : List Statement) (v : SubgraphView) :
    Statement.group ss v = { v with
      defaults := (ss.filterMap Statement.defaults?).map Defaults.view ++ v.defaults
      nodes := (ss.filterMap Statement.node?).map Node.view ++ v.nodes
      edges := (ss.filterMap Statement.edge?).map Edge.view ++ v.edges
      subgraphs := (ss.filterMap Statement.subgraph?).map Subgraph.view ++ v.subgraphs } := by
  induction ss with
  | nil =>
    cases v
    rfl
  | cons s ss ih => cases s <;> rw [Statement.group, ih] <;> rfl

lemma Subgraph.view_eq (g : Subgraph) : g.view =
    ⟨g.name.map (·.text), g.attributes.view, g.defaults.map Defaults.view, g.nodes.map Node.view,
      g.edges.map Edge.view, g.subgraphs.map Subgraph.view⟩ := by
  obtain ⟨name, attributes, statements⟩ := g
  rw [Subgraph.view, Statement.group_eq]
  simp only [List.append_nil]
  rfl

lemma Ident.text_injective : Function.Injective Ident.text := fun _ _ h => Ident.eq_of_text h

lemma AttributeView.of_injective : Function.Injective AttributeView.of := by
  rintro ⟨name, value⟩ ⟨name', value'⟩ h
  cases value <;> cases value' <;>
    simp_all [AttributeView.of, Ident.text_injective.eq_iff]

lemma Attributes.view_injective : Function.Injective Attributes.view :=
  fun _ _ h => Attributes.ext (List.map_injective_iff.2 AttributeView.of_injective h)

lemma Node.view_injective : Function.Injective Node.view := by
  rintro ⟨name, anchor, attributes⟩ ⟨name', anchor', attributes'⟩ h
  simp only [Node.view, NodeView.mk.injEq] at h
  rw [Node.mk.injEq]
  exact ⟨Ident.text_injective h.1, h.2.1, Attributes.view_injective h.2.2⟩

lemma Defaults.view_injective : Function.Injective Defaults.view := by
  rintro ⟨kind, attributes⟩ ⟨kind', attributes'⟩ h
  simp only [Defaults.view, DefaultsView.mk.injEq] at h
  rw [Defaults.mk.injEq]
  exact ⟨h.1, Attributes.view_injective h.2⟩

/-! ### Names in front of anchors -/

/-- The text of an anchor behind a name. -/
def anchorText : Option String → String
  | none => ""
  | some anchor => ":" ++ anchor

lemma anchorText_injective : Function.Injective anchorText := by
  intro a b h
  cases a <;> cases b <;> simp_all [anchorText]

lemma ends_anchorText (anchor : Option String) : Ends (anchorText anchor).toList := by
  cases anchor with
  | none => exact ends_nil
  | some anchor =>
    rw [anchorText, String.toList_append]
    exact ends_cons rfl (by decide) _

/-- A token at the front of a text is found again, whatever follows that it does not run into. -/
lemma Ident.IsToken.eq_of_append {x y : Ident} (hx : x.IsToken) (hy : y.IsToken) {s t : String}
    (hs : Ends s.toList) (ht : Ends t.toList) (h : x.text ++ s = y.text ++ t) : x = y ∧ s = t := by
  obtain ⟨kind, hx, -⟩ := isIdentText_iff.1 hx.token
  obtain ⟨kind', hy, -⟩ := isIdentText_iff.1 hy.token
  obtain ⟨c, cs, hxc, -, hxw⟩ := hx.wordAt hs
  obtain ⟨d, ds, hyd, -, hyw⟩ := hy.wordAt ht
  have hlist : c :: (cs ++ s.toList) = d :: (ds ++ t.toList) := by
    rw [← List.cons_append, ← List.cons_append, ← hxc, ← hyd, ← String.toList_append, h,
      String.toList_append]
  obtain ⟨rfl, hrest⟩ := List.cons.inj hlist
  rw [hrest] at hxw
  have hread := (lexeme_word_iff.2 hxw).symm.trans (lexeme_word_iff.2 hyw)
  simp only [Except.ok.injEq, Prod.mk.injEq, Lexeme.word.injEq] at hread
  exact ⟨Ident.eq_of_text hread.1.2, String.toList_inj.1 hread.2⟩

lemma Endpoint.view_node (name : Ident) (anchor : Option String) :
    (Endpoint.node name anchor).view = .node (name.text ++ anchorText anchor) := by
  cases anchor with
  | none => simp [Endpoint.view, anchorText]
  | some anchor => rw [Endpoint.view, anchorText, String.append_assoc]

/-! ### Views that are equal -/

lemma map_eq_map_iff_forall₂ {α β : Type} {f : α → β} {R : α → α → Prop} {as bs : List α}
    (h : ∀ a ∈ as, ∀ b ∈ bs, f a = f b ↔ R a b) :
    as.map f = bs.map f ↔ List.Forall₂ R as bs := by
  induction as generalizing bs with
  | nil => cases bs <;> simp
  | cons a as ih =>
    cases bs with
    | nil => simp
    | cons b bs =>
      rw [List.map_cons, List.map_cons, List.cons.injEq, List.forall₂_cons,
        h a List.mem_cons_self b List.mem_cons_self, ih]
      intro a' ha b' hb
      exact h a' (List.mem_cons_of_mem _ ha) b' (List.mem_cons_of_mem _ hb)

lemma Endpoint.view_eq_iff {e f : Endpoint} (he : e.AllIdents Ident.IsToken)
    (hf : f.AllIdents Ident.IsToken)
    (hblock : ∀ g ∈ e.block?, ∀ h ∈ f.block?, g.view = h.view ↔ g.SameGroups h) :
    e.view = f.view ↔ e.SameGroups f := by
  cases e with
  | node x anchor =>
    cases f with
    | node y anchor' =>
      rw [view_node, view_node, EndpointView.node.injEq]
      constructor
      · intro h
        obtain ⟨rfl, hanchor⟩ :=
          he.1.eq_of_append hf.1 (ends_anchorText anchor) (ends_anchorText anchor') h
        obtain rfl := anchorText_injective hanchor
        exact .node x anchor
      · rintro ⟨⟩
        rfl
    | subgraph h =>
      rw [view_node, Endpoint.view]
      constructor <;> rintro ⟨⟩
  | subgraph g =>
    cases f with
    | node y anchor' =>
      rw [view_node, Endpoint.view]
      constructor <;> rintro ⟨⟩
    | subgraph h =>
      rw [Endpoint.view, Endpoint.view, EndpointView.subgraph.injEq, hblock g rfl h rfl]
      exact ⟨.subgraph, fun | .subgraph body => body⟩

lemma Edge.view_eq_iff {e f : Edge} (he : (Statement.edge e).AllIdents Ident.IsToken)
    (hf : (Statement.edge f).AllIdents Ident.IsToken)
    (hblock : ∀ g ∈ (Statement.edge e).blocks, ∀ h ∈ (Statement.edge f).blocks,
      g.view = h.view ↔ g.SameGroups h) :
    e.view = f.view ↔ e.SameGroups f := by
  obtain ⟨source, destination, attributes⟩ := e
  obtain ⟨source', destination', attributes'⟩ := f
  have hsource : source.view = source'.view ↔ source.SameGroups source' :=
    Endpoint.view_eq_iff he.1 hf.1 fun g hg h hh => hblock g
      (List.mem_append_left _ (Option.mem_toList.2 hg)) h
      (List.mem_append_left _ (Option.mem_toList.2 hh))
  have hdestination : destination.view = destination'.view ↔
      destination.SameGroups destination' :=
    Endpoint.view_eq_iff he.2.1 hf.2.1 fun g hg h hh => hblock g
      (List.mem_append_right _ (Option.mem_toList.2 hg)) h
      (List.mem_append_right _ (Option.mem_toList.2 hh))
  rw [Edge.view, Edge.view, EdgeView.mk.injEq, hsource, hdestination,
    Attributes.view_injective.eq_iff]
  exact ⟨fun h => .intro h.1 h.2.1 h.2.2, fun | .intro hs hd ha => ⟨hs, hd, ha⟩⟩

namespace Subgraph

lemma sameGroups_iff {g h : Subgraph} : g.SameGroups h ↔
    g.name = h.name ∧ g.attributes = h.attributes ∧ g.defaults = h.defaults ∧ g.nodes = h.nodes ∧
      List.Forall₂ Edge.SameGroups g.edges h.edges ∧
      List.Forall₂ SameGroups g.subgraphs h.subgraphs := by
  constructor
  · rintro ⟨hname, hattributes, hdefaults, hnodes, hedges, hsubgraphs⟩
    exact ⟨hname, hattributes, hdefaults, hnodes, hedges, hsubgraphs⟩
  · rintro ⟨hname, hattributes, hdefaults, hnodes, hedges, hsubgraphs⟩
    exact .intro hname hattributes hdefaults hnodes hedges hsubgraphs

/-- The identifiers in the statements of a container are tokens. -/
def HasTokens (g : Subgraph) : Prop := ∀ s ∈ g.statements, s.AllIdents Ident.IsToken

/-- Containers whose names are tokens have equal views exactly if they have the same groups. -/
lemma view_eq_iff {g h : Subgraph} (hg : g.Everywhere HasTokens) (hh : h.Everywhere HasTokens) :
    g.view = h.view ↔ g.SameGroups h := by
  induction g using block_induction generalizing h with
  | container g ih =>
    have hidents : g.HasTokens := (everywhere_iff.1 hg).1
    have hidents' : h.HasTokens := (everywhere_iff.1 hh).1
    have hedges : g.edges.map Edge.view = h.edges.map Edge.view ↔
        List.Forall₂ Edge.SameGroups g.edges h.edges := by
      apply map_eq_map_iff_forall₂
      intro e he f hf
      rw [mem_edges] at he hf
      exact Edge.view_eq_iff (hidents _ he) (hidents' _ hf) fun b hb c hc =>
        ih _ he b hb (hg.block he hb) (hh.block hf hc)
    have hsubgraphs : g.subgraphs.map view = h.subgraphs.map view ↔
        List.Forall₂ SameGroups g.subgraphs h.subgraphs := by
      apply map_eq_map_iff_forall₂
      intro b hb c hc
      rw [mem_subgraphs] at hb hc
      exact ih _ hb b (List.mem_singleton_self b) (hg.block hb (List.mem_singleton_self b))
        (hh.block hc (List.mem_singleton_self c))
    rw [view_eq, view_eq, SubgraphView.mk.injEq, sameGroups_iff, hedges, hsubgraphs,
      (Option.map_injective Ident.text_injective).eq_iff, Attributes.view_injective.eq_iff,
      (List.map_injective_iff.2 Defaults.view_injective).eq_iff,
      (List.map_injective_iff.2 Node.view_injective).eq_iff]

end Subgraph

namespace Reader

lemma hasTokens_of_parse {reader : Reader} {source : String} {parsed : Parsed}
    (h : reader.parse source = .ok parsed) {g : Graph} (hg : g ∈ parsed.toList) :
    g.body.Everywhere Subgraph.HasTokens := by
  obtain ⟨-, -, hgraphs⟩ := proper_of_parse (fun _ ht _ hx => Ident.isToken_of_isSpelled ht hx) h
  exact Subgraph.Everywhere.mono (fun _ hproper => hproper.statements) g.body (hgraphs g hg).1

/-- Two graphs that were read, from any sources, have equal views exactly if they are the same but
for the interleaving of the kinds of statements in each container. -/
theorem view_eq_iff_of_parse {reader reader' : Reader} {source source' : String}
    {parsed parsed' : Parsed} (h : reader.parse source = .ok parsed)
    (h' : reader'.parse source' = .ok parsed') :
    ∀ g ∈ parsed.toList, ∀ g' ∈ parsed'.toList, g.view = g'.view ↔
      g.name = g'.name ∧ g.kind = g'.kind ∧ g.strict = g'.strict ∧
        g.body.SameGroups g'.body := by
  intro g hg g' hg'
  have hbody : g.body.view = g'.body.view ↔ g.body.SameGroups g'.body :=
    Subgraph.view_eq_iff (hasTokens_of_parse h hg) (hasTokens_of_parse h' hg')
  rw [Graph.view, Graph.view, GraphView.mk.injEq, hbody]
  constructor
  · rintro ⟨hkind, hstrict, hsame⟩
    exact ⟨(Subgraph.sameGroups_iff.1 hsame).1, hkind, hstrict, hsame⟩
  · rintro ⟨-, hkind, hstrict, hsame⟩
    exact ⟨hkind, hstrict, hsame⟩

/-- The statements stand in another order, those of the block at the end of the edge as well, and
the name in front of the anchor holds a colon. -/
theorem view_eq_iff_of_parse_interleaved :
    ∃ g g' : Graph,
      Reader.parse {} "graph\x7bc;\"a:b\":x--\x7bc;c--d\x7d\x7d" = .ok (.single g) ∧
        Reader.parse {} "graph\x7b\"a:b\":x--\x7bc--d;c\x7d;c\x7d" = .ok (.single g') ∧
        g ≠ g' ∧ g.view = g'.view ∧
        (g.view = g'.view ↔ g.name = g'.name ∧ g.kind = g'.kind ∧ g.strict = g'.strict ∧
          g.body.SameGroups g'.body) := by
  have hc : IsIdent [.word .name "c"] ⟨"c"⟩ := .name (by decide +kernel)
  have hd : IsIdent [.word .name "d"] ⟨"d"⟩ := .name (by decide +kernel)
  have hx : IsIdent [.word .name "x"] ⟨"x"⟩ := .name (by decide +kernel)
  have hquoted : IsIdent [.word .quoted "\"a:b\""] ⟨"\"a:b\""⟩ := .quoted (.nil _)
  have hnode := IsClause.node hc .none .nil
  have hinner := IsClause.edges (.node hc .none) .line (.node hd .none) .nil .nil
  have hblock := IsBlock.bare (.cons hnode (.semicolon (.cons hinner .nil)))
  have hblock' := IsBlock.bare (.cons hinner (.semicolon (.cons hnode .nil)))
  have houter := IsClause.edges (.node hquoted (.field hx)) .line (.block hblock) .nil .nil
  have houter' := IsClause.edges (.node hquoted (.field hx)) .line (.block hblock') .nil .nil
  have hdoc : IsDeclaration _ ⟨false, .graph, none, _⟩ :=
    .intro .absent (keyword?_text .graph) .none (.cons hnode (.semicolon (.cons houter .nil)))
  have hdoc' : IsDeclaration _ ⟨false, .graph, none, _⟩ :=
    .intro .absent (keyword?_text .graph) .none (.cons houter' (.semicolon (.cons hnode .nil)))
  have hread : Reader.parse {} "graph\x7bc;\"a:b\":x--\x7bc;c--d\x7d\x7d" = .ok _ :=
    parse_of_lexemes (by decide +kernel) hdoc
  have hread' : Reader.parse {} "graph\x7b\"a:b\":x--\x7bc--d;c\x7d;c\x7d" = .ok _ :=
    parse_of_lexemes (by decide +kernel) hdoc'
  exact ⟨_, _, hread, hread', by decide +kernel, rfl, view_eq_iff_of_parse hread hread' _
    List.mem_cons_self _ List.mem_cons_self⟩

end Reader

end DotGraph
