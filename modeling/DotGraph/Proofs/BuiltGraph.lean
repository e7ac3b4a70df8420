import DotGraph.Graph.Matrix
import DotGraph.Proofs.StrictText
import DotGraph.Proofs.WellFormedGraph

/-!
# Graphs built from labels

Nodes are named by the labels of the edges, quoted where they have to be. The graph comes back from
its text where no name begins with a blank: a blank that is no ASCII character is taken for a
letter when names are quoted, and it is skipped when they are read.
-/

namespace DotGraph

open Scan Grammar

/-! ### Names made from labels -/

/-- No blank stands in front of the text where it is written as a bare word. -/
def IsTight (text : String) : Prop :=
  Ident.isBare ⟨text⟩ = true → Ident.isKeyword ⟨text⟩ = false →
    ∀ c ∈ text.toList.head?, Text.isBlank c = false

namespace Ident

lemma quotedIfNeeded_of_bare {text : String} (hb : isBare ⟨text⟩ = true)
    (hk : isKeyword ⟨text⟩ = false) : quotedIfNeeded text = ⟨text⟩ := by
  rw [quotedIfNeeded, hb, hk]
  rfl

lemma quotedIfNeeded_of_not_bare {text : String}
    (h : ¬ (isBare ⟨text⟩ = true ∧ isKeyword ⟨text⟩ = false)) :
    quotedIfNeeded text = quote text := by
  rw [quotedIfNeeded, if_neg]
  simpa using h

lemma isTight_of_isToken {text : String} (h : (quotedIfNeeded text).IsToken) : IsTight text := by
  intro hb hk c hc
  rw [quotedIfNeeded_of_bare hb hk] at h
  obtain ⟨kind, ⟨d, ds, ht, hblank, -⟩, -⟩ := isIdentText_iff.1 h.token
  rw [ht] at hc
  cases hc
  exact hblank

/-- Every text gets a canonical name, unless a blank in front of it would be lost. -/
lemma isCanonical_quotedIfNeeded {text : String} (h : IsTight text) :
    (quotedIfNeeded text).IsCanonical := by
  by_cases hbare : isBare ⟨text⟩ = true ∧ isKeyword ⟨text⟩ = false
  · obtain ⟨hb, hk⟩ := hbare
    rw [quotedIfNeeded_of_bare hb hk]
    obtain ⟨kind, -, hw⟩ := isWord_of_isBare hb (h hb hk)
    exact isCanonical_of_isWord hw hk (toDot_of_verbatim (.inr (.inr ⟨hb, hk⟩)))
  · rw [quotedIfNeeded_of_not_bare hbare]
    exact isCanonical_quoted (isWord_quote text)

end Ident

namespace Graph

section Built

variable {stem : String} {directed : Bool}

lemma ofEdges_eq (directed : Bool) (edges : List Edge) :
    ofEdges directed edges =
      { kind := .ofDirected directed,
        body := (Subgraph.empty (some defaultName)).extend (edges.map .edge) } := by
  have hadd : ofEdges directed edges =
      (start (.ofDirected directed) (some defaultName)).addEdges edges := by
    rw [addEdges, run, List.foldl_map]
    rfl
  rw [hadd, start_addEdges]

lemma isCanonical_defaultName : defaultName.IsCanonical :=
  isCanonical_letter (by decide) (by decide) (by decide)

lemma parse_text_ofEdges {edges : List Edge} (h : ∀ e ∈ edges, e.IsPlain) (reader : Reader)
    (directed : Bool) :
    reader.parse (ofEdges directed edges).text = .ok (.single (ofEdges directed edges)) := by
  have hcanonical : (ofEdges directed edges).IsCanonical := by
    rw [ofEdges_eq]
    refine Subgraph.everywhere_extend_edges ?_ h
    intro x hx
    cases hx
    exact isCanonical_defaultName
  have hsettled : (ofEdges directed edges).Settled reader := by
    rw [ofEdges_eq]
    exact allSettled_edges h
  have hsimple : (ofEdges directed edges).simplify = false := by rw [ofEdges_eq]
  have hread := hcanonical.isWritable.parse_graph Printer.isReadable_default hsimple reader
  rwa [toGraph_declaration rfl hcanonical hsimple hsettled] at hread

/-! ### Edges between labels -/

lemma isPlain_labelEdge {source destination : String} (hs : IsTight (stem ++ source))
    (hd : IsTight (stem ++ destination)) : (labelEdge stem source destination).IsPlain where
  source := trivial
  destination := trivial
  idents := by
    refine ⟨⟨Ident.isCanonical_quotedIfNeeded hs, ?_⟩, ⟨Ident.isCanonical_quotedIfNeeded hd, ?_⟩,
      Attributes.allIdents_empty⟩
    · intro anchor hanchor
      cases hanchor
    · intro anchor hanchor
      cases hanchor

lemma isTight_of_parse {reader : Reader} {source : String} {edges : List (String × String)}
    (h : reader.parse source = .ok (.single (ofEdgeList edges stem directed))) :
    ∀ e ∈ edges, IsTight (stem ++ e.1) ∧ IsTight (stem ++ e.2) := by
  obtain ⟨-, -, hgraphs⟩ :=
    Reader.proper_of_parse (fun _ ht _ hx => Ident.isToken_of_isSpelled ht hx) h
  have hread := (hgraphs _ List.mem_cons_self).1
  intro e he
  have hmem : Statement.edge (labelEdge stem e.1 e.2) ∈
      (ofEdgeList edges stem directed).body.statements := by
    rw [ofEdgeList, ofEdges_eq]
    exact List.mem_map_of_mem (List.mem_map_of_mem he)
  obtain ⟨hsource, hdestination, -⟩ := (Subgraph.everywhere_iff.1 hread).1.statements _ hmem
  exact ⟨Ident.isTight_of_isToken hsource.1, Ident.isTight_of_isToken hdestination.1⟩

/-- A graph that is built from the labels of its edges comes back from its text exactly where all
names are tight, whatever else the labels and their stem are made of. -/
theorem parse_text_ofEdgeList_iff (reader : Reader) (edges : List (String × String))
    (stem : String) (directed : Bool) :
    reader.parse (ofEdgeList edges stem directed).text =
        .ok (.single (ofEdgeList edges stem directed)) ↔
      ∀ e ∈ edges, IsTight (stem ++ e.1) ∧ IsTight (stem ++ e.2) := by
  constructor
  · intro h
    exact isTight_of_parse h
  · intro h
    apply parse_text_ofEdges
    intro e he
    obtain ⟨labels, hmem, rfl⟩ := List.mem_map.1 he
    exact isPlain_labelEdge (h labels hmem).1 (h labels hmem).2

/-- The blank in front of the name is skipped, so that another node is read. -/
theorem parse_text_ofEdgeList_blank :
    Reader.parse {} (ofEdgeList [("\u00a0x", "b")] "" false).text =
        .ok (.single (ofEdgeList [("x", "b")] "" false)) ∧
      Reader.parse {} (ofEdgeList [("\u00a0x", "b")] "" false).text ≠
        .ok (.single (ofEdgeList [("\u00a0x", "b")] "" false)) := by
  have hx : IsIdent [.word .name "x"] ⟨"x"⟩ := .name (by decide +kernel)
  have hb : IsIdent [.word .name "b"] ⟨"b"⟩ := .name (by decide +kernel)
  have hedge := IsClause.edges (.node hx .none) .line (.node hb .none) .nil .nil
  have hdoc : IsDeclaration _ ⟨false, .graph, some ⟨"G"⟩, _⟩ :=
    .intro .absent (keyword?_text .graph) (.some (.name (by decide +kernel)))
      (.cons hedge (.semicolon .nil))
  have hread : Reader.parse {} (ofEdgeList [("\u00a0x", "b")] "" false).text =
      .ok (.single (ofEdgeList [("x", "b")] "" false)) := by
    rw [Reader.parse_of_lexemes (by decide +kernel) hdoc]
    decide +kernel
  refine ⟨hread, ?_⟩
  rw [hread]
  decide +kernel

end Built

end Graph

end DotGraph
