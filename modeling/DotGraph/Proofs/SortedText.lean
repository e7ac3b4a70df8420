import DotGraph.Batch
import DotGraph.Proofs.SortedGraph

/-!
# Texts of sorted attributes

Formatting a text whose attributes are sorted. Where edges may repeat, the text is that of a graph
that is sorted like the one it was written for, and it comes out the same. In a strict graph the
edges that end in blocks may have been different by the order of attributes only, and then they
merge when the sorted text is read.
-/

namespace DotGraph

open Scan Grammar

/-! ### Reading a sorted text -/

namespace Graph

variable (reader : Reader) (p : Printer)

/-- The graph that the text of a graph describes. -/
def reread (g : Graph) : Graph := (p.declaration g).toGraph reader.inheritDefaults

/-- The graph that the text of a graph would describe if its edges could repeat. -/
def rereadLoose (g : Graph) : Graph :=
  Declaration.toGraph reader.inheritDefaults { p.declaration g with strict := false }

variable {reader p} {g : Graph}

lemma body_reread : (g.reread reader p).body =
    (p.asBlock g.body).subgraph ⟨reader.inheritDefaults, g.strict, g.kind.isDirected⟩ {} := by
  obtain ⟨kind, strict, simplify, name, attributes, statements⟩ := g
  rw [reread, Printer.declaration, Printer.asBlock]
  rfl

lemma body_rereadLoose : (g.rereadLoose reader p).body =
    (p.asBlock g.body).subgraph ⟨reader.inheritDefaults, false, g.kind.isDirected⟩ {} := by
  obtain ⟨kind, strict, simplify, name, attributes, statements⟩ := g
  rw [rereadLoose, Printer.declaration, Printer.asBlock]
  rfl

lemma mergedFrom_rereadLoose :
    (g.reread reader p).body.MergedFrom g.kind.isDirected (g.rereadLoose reader p).body := by
  rw [body_reread, body_rereadLoose]
  exact subgraph_mergedFrom (p.asBlock g.body) {}

/-- Where edges could repeat, the graph would be sorted like the one the text was written for. -/
lemma sorted_rereadLoose (hs : p.sortAttributes = true) (hg : g.IsCanonical)
    (hset : g.Settled reader) : (g.rereadLoose reader p).body.sorted = g.body.sorted := by
  have hnodes := Subgraph.Everywhere.mono (fun _ h => h.nodes) g.body hg
  rw [body_rereadLoose]
  exact sorted_subgraph hs g.body {} {} rfl hnodes hset

/-- No edges are lost where the text would describe none with the same endpoints. -/
lemma body_reread_eq (h : g.strict = true →
    (g.rereadLoose reader p).body.Everywhere (Subgraph.HasDistinctEdges g.kind.isDirected)) :
    (g.reread reader p).body = (g.rereadLoose reader p).body := by
  by_cases hstrict : g.strict = true
  · exact mergedFrom_rereadLoose.resolve_right fun hlost => hlost.2 (h hstrict)
  · rw [Bool.not_eq_true] at hstrict
    rw [body_reread, body_rereadLoose, hstrict]

theorem graph_reread (hs : p.sortAttributes = true) (hg : g.IsCanonical) (hset : g.Settled reader)
    (hsimple : g.simplify = false) (h : g.strict = true →
      (g.rereadLoose reader p).body.Everywhere (Subgraph.HasDistinctEdges g.kind.isDirected)) :
    p.graph (g.reread reader p) = p.graph g := by
  have hsorted : (g.reread reader p).body.sorted = g.body.sorted := by
    rw [body_reread_eq h, sorted_rereadLoose hs hg hset]
  rw [← Printer.graph_sorted hs (g.reread reader p) rfl, hsorted,
    ← Printer.graph_sorted hs g hsimple]
  obtain ⟨kind, strict, simplify, body⟩ := g
  cases hsimple
  rfl

/-- A graph whose text declares what the text of another one declares has not lost edges. -/
theorem everywhere_of_declaration (hs : p.sortAttributes = true)
    (hcanonical : (g.reread reader p).IsCanonical) (hset : (g.reread reader p).Settled reader)
    (heq : p.declaration (g.reread reader p) = p.declaration g) (hstrict : g.strict = true) :
    (g.rereadLoose reader p).body.Everywhere (Subgraph.HasDistinctEdges g.kind.isDirected) := by
  have hloose : (g.reread reader p).rereadLoose reader p = g.rereadLoose reader p := by
    rw [rereadLoose, rereadLoose, heq]
  have hsorted := sorted_rereadLoose hs hcanonical hset
  rw [hloose] at hsorted
  have hcount : (g.reread reader p).body.edgeCount = (g.rereadLoose reader p).body.edgeCount := by
    rw [← Subgraph.edgeCount_sorted, ← hsorted, Subgraph.edgeCount_sorted]
  have hbody : (g.reread reader p).body = (g.rereadLoose reader p).body :=
    mergedFrom_rereadLoose.resolve_right fun hlost => absurd hcount (Nat.ne_of_lt hlost.1)
  rw [← hbody]
  exact Subgraph.Everywhere.mono (fun _ h => h.edges hstrict) _ hcanonical

end Graph

/-! ### Formatting twice -/

section Twice

variable {reader : Reader} {p : Printer}

lemma avoidsSignedPoint_graphs (hp : p.IsReadable) {gs : List Graph}
    (h : ∀ g ∈ gs, g.IsWritable ∧ g.simplify = false) : AvoidsSignedPoint (p.graphs gs) := by
  obtain ⟨xs, -, hx⟩ := laidOut_graphs hp h
  obtain ⟨tokens, ht, rfl⟩ := reads_of_front (fun _ _ => hx.reads) {}
  intro tokens' ht' token htoken heq
  obtain rfl : tokens = tokens' := Except.ok.inj (ht.symm.trans ht')
  exact hx.signedPoint_notMem (heq ▸ List.mem_map_of_mem htoken)

lemma parse_graphs_reread (reader : Reader) (hp : p.IsReadable) {gs : List Graph}
    (h : ∀ g ∈ gs, g.IsWritable ∧ g.simplify = false) (hne : gs ≠ []) :
    reader.parse (p.graphs gs) = .ok (.ofList (gs.map (Graph.reread reader p))) := by
  refine Reader.parse_eq_ok_iff.2 ⟨_, ofString_graphs hp h hne, ?_⟩
  rw [Reader.graphs, List.map_map]
  rfl

/-- The text of graphs that were read stays the same if no edges are lost on reading it. -/
theorem graphs_reread_iff (hp : p.IsReadable) (hs : p.sortAttributes = true) {gs : List Graph}
    (h : ∀ g ∈ gs, g.IsCanonical ∧ g.simplify = false ∧ g.Settled reader) (hne : gs ≠ []) :
    p.graphs (gs.map (Graph.reread reader p)) = p.graphs gs ↔ ∀ g ∈ gs, g.strict = true →
      (g.rereadLoose reader p).body.Everywhere (Subgraph.HasDistinctEdges g.kind.isDirected) := by
  have hwritable : ∀ g ∈ gs, g.IsWritable ∧ g.simplify = false :=
    fun g hg => ⟨(h g hg).1.isWritable, (h g hg).2.1⟩
  constructor
  · intro htext g hg hstrict
    obtain ⟨-, -, hagain⟩ := Reader.graphs_of_parse (avoidsSignedPoint_graphs hp hwritable)
      (parse_graphs_reread reader hp hwritable hne)
    rw [Parsed.toList_ofList] at hagain
    have hdocument := ofString_graphs hp
      (fun g hg => ⟨(hagain g hg).1.isWritable, (hagain g hg).2.1⟩) (by simpa using hne)
    rw [htext, ofString_graphs hp hwritable hne, List.map_map] at hdocument
    have hdeclaration := List.map_inj_left.1 (Except.ok.inj hdocument) g hg
    obtain ⟨hcanonical, -, hset⟩ := hagain _ (List.mem_map_of_mem hg)
    exact Graph.everywhere_of_declaration hs hcanonical hset hdeclaration.symm hstrict
  · intro hdistinct
    rw [Printer.graphs, Printer.graphs, List.map_map]
    congr 1
    refine List.map_congr_left fun g hg => ?_
    obtain ⟨hcanonical, hsimple, hset⟩ := h g hg
    exact Graph.graph_reread hs hcanonical hset hsimple (hdistinct g hg)

end Twice

namespace Batch

variable {reader : Reader} {p : Printer}

lemma formatText_eq_ok_iff {source text : String} : formatText reader p source = .ok text ↔
    ∃ parsed, reader.parse source = .ok parsed ∧ p.graphs parsed.toList = text := by
  rw [formatText]
  cases reader.parse source <;> simp [Except.map]

lemma formatText_graphs (hp : p.IsReadable) {source : String} {parsed : Parsed}
    (ha : AvoidsSignedPoint source) (h : reader.parse source = .ok parsed) :
    formatText reader p (p.graphs parsed.toList) =
      .ok (p.graphs (parsed.toList.map (Graph.reread reader p))) := by
  obtain ⟨-, hne, hgraphs⟩ := Reader.graphs_of_parse ha h
  have hwritable : ∀ g ∈ parsed.toList, g.IsWritable ∧ g.simplify = false :=
    fun g hg => ⟨(hgraphs g hg).1.isWritable, (hgraphs g hg).2.1⟩
  refine formatText_eq_ok_iff.2 ⟨_, parse_graphs_reread reader hp hwritable hne, ?_⟩
  rw [Parsed.toList_ofList]

/-- Text with sorted attributes can be formatted again, and it comes out the same if and only if no
edges of its strict graphs merge on reading it: where edges could repeat, no container at any
depth would hold two with the same endpoints. -/
theorem formatText_formatText_iff (hp : p.IsReadable) (hs : p.sortAttributes = true)
    {source text : String} (ha : AvoidsSignedPoint source)
    (h : formatText reader p source = .ok text) :
    ∃ parsed again, reader.parse source = .ok parsed ∧ formatText reader p text = .ok again ∧
      (again = text ↔ ∀ g ∈ parsed.toList, g.strict = true →
        (g.rereadLoose reader p).body.Everywhere
          (Subgraph.HasDistinctEdges g.kind.isDirected)) := by
  obtain ⟨parsed, hparse, rfl⟩ := formatText_eq_ok_iff.1 h
  obtain ⟨-, hne, hgraphs⟩ := Reader.graphs_of_parse ha hparse
  exact ⟨parsed, _, hparse, formatText_graphs hp ha hparse, graphs_reread_iff hp hs hgraphs hne⟩

/-- Formatting twice is formatting once where the edges of each container of a strict graph keep
different endpoints when all attributes are sorted. -/
theorem formatText_fixed (hp : p.IsReadable) (hs : p.sortAttributes = true) {source : String}
    {parsed : Parsed} (ha : AvoidsSignedPoint source) (h : reader.parse source = .ok parsed)
    (hd : ∀ g ∈ parsed.toList, g.strict = true →
      g.body.sorted.Everywhere (Subgraph.HasDistinctEdges g.kind.isDirected)) :
    formatText reader p (p.graphs parsed.toList) = .ok (p.graphs parsed.toList) := by
  obtain ⟨-, hne, hgraphs⟩ := Reader.graphs_of_parse ha h
  rw [formatText_graphs hp ha h, (graphs_reread_iff hp hs hgraphs hne).2]
  intro g hg hstrict
  obtain ⟨hcanonical, -, hset⟩ := hgraphs g hg
  apply Subgraph.Everywhere.of_sorted
  rw [Graph.sorted_rereadLoose hs hcanonical hset]
  exact hd g hg hstrict

/-- A strict graph with two edges whose blocks list the attributes of a node in different orders. -/
def swapped : String :=
  "strict digraph\x7b\x7ba[x=1,y=2]\x7d->b;\x7ba[y=2,x=1]\x7d->b\x7d"

def edgeOf (a : Attributes) : Statement :=
  .edge ⟨.subgraph ⟨none, .empty, [.node ⟨⟨"a"⟩, none, a⟩]⟩, .node ⟨"b"⟩ none, .empty⟩

def ascending : Attributes := .ofList [(⟨"x"⟩, .text ⟨"1"⟩), (⟨"y"⟩, .text ⟨"2"⟩)]

def descending : Attributes := .ofList [(⟨"y"⟩, .text ⟨"2"⟩), (⟨"x"⟩, .text ⟨"1"⟩)]

def swappedGraph : Graph where
  kind := .digraph
  strict := true
  body := ⟨none, .empty, [edgeOf ascending, edgeOf descending]⟩

lemma parse_swapped : Reader.parse {} swapped = .ok (.single swappedGraph) := by
  have ha : IsIdent [.word .name "a"] ⟨"a"⟩ := .name (by decide +kernel)
  have hb : IsIdent [.word .name "b"] ⟨"b"⟩ := .name (by decide +kernel)
  have hx : IsItem _ (⟨"x"⟩, .text ⟨"1"⟩) := .text (.name (by decide +kernel)) (.numeral "1")
  have hy : IsItem _ (⟨"y"⟩, .text ⟨"2"⟩) := .text (.name (by decide +kernel)) (.numeral "2")
  have hedge {xs : List Lexeme} {items : List Item} (h : IsItems xs items) :
      IsClause _
        (.edges (.block ⟨none, [.node ⟨"a"⟩ none (items ++ [])]⟩) (.node ⟨"b"⟩ none) [] []) :=
    .edges (.block (.bare (.cons (.node ha .none (.cons h .nil)) .nil))) .arrow (.node hb .none)
      .nil .nil
  have hclauses := IsClauses.cons (hedge (.cons hx (.comma (.cons hy .nil))))
    (.semicolon (.cons (hedge (.cons hy (.comma (.cons hx .nil)))) .nil))
  have hdeclaration : IsDeclaration _ ⟨true, .digraph, none, _⟩ :=
    .intro (.present (by decide +kernel : Lexeme.keyword? (.word .name "strict") = some .strict))
      (keyword?_text .digraph) .none hclauses
  exact Reader.parse_of_lexemes (by decide +kernel) hdeclaration

lemma sorted_ascending : ascending.sorted = ascending :=
  Attributes.sorted_of_pairwise (by decide +kernel)

lemma sorted_descending : descending.sorted = ascending :=
  (Attributes.sorted_eq_of_perm (by decide +kernel)).trans sorted_ascending

/-- Where edges could repeat, both edges of the graph would leave the same block. -/
lemma body_rereadLoose_swapped {p : Printer} (hs : p.sortAttributes = true) :
    (swappedGraph.rereadLoose {} p).body =
      ⟨none, .empty, [edgeOf ascending, edgeOf ascending]⟩ := by
  have hempty : Attributes.sorted .empty = .empty :=
    Attributes.sorted_of_pairwise List.Pairwise.nil
  rw [Graph.body_rereadLoose]
  simp only [swappedGraph, edgeOf, Printer.asBlock, Printer.clauses, Printer.statementClause,
    Printer.edgeClause, Printer.terminal, Printer.ordered_of_sorts hs, sorted_ascending,
    sorted_descending, hempty]
  decide +kernel

theorem formatText_formatText_iff_swapped :
    Printer.IsReadable { sortAttributes := true } ∧ AvoidsSignedPoint swapped ∧
    ∃ text, formatText {} { sortAttributes := true } swapped = .ok text ∧
      ∃ parsed again, Reader.parse {} swapped = .ok parsed ∧
        formatText {} { sortAttributes := true } text = .ok again ∧
        (again = text ↔ ∀ g ∈ parsed.toList, g.strict = true →
          (g.rereadLoose {} { sortAttributes := true }).body.Everywhere
            (Subgraph.HasDistinctEdges g.kind.isDirected)) := by
  have hp : Printer.IsReadable { sortAttributes := true } := { Printer.isReadable_default with }
  have havoids : AvoidsSignedPoint swapped := by decide +kernel
  have htext : formatText {} { sortAttributes := true } swapped = .ok _ :=
    formatText_eq_ok_iff.2 ⟨_, parse_swapped, rfl⟩
  exact ⟨hp, havoids, _, htext, formatText_formatText_iff hp rfl havoids htext⟩

/-- Both edges of the graph are written alike, and they are merged when the text is read. -/
theorem not_formatText_formatText : AvoidsSignedPoint swapped ∧
    ∃ text, formatText {} { sortAttributes := true } swapped = .ok text ∧
      formatText {} { sortAttributes := true } text ≠ .ok text := by
  have hp : Printer.IsReadable { sortAttributes := true } := { Printer.isReadable_default with }
  have havoids : AvoidsSignedPoint swapped := by decide +kernel
  obtain ⟨-, hne, hgraphs⟩ := Reader.graphs_of_parse havoids parse_swapped
  refine ⟨havoids, _, formatText_eq_ok_iff.2 ⟨_, parse_swapped, rfl⟩, fun h => ?_⟩
  rw [formatText_graphs hp havoids parse_swapped] at h
  have hdistinct := (graphs_reread_iff hp rfl hgraphs hne).1 (Except.ok.inj h) swappedGraph
    List.mem_cons_self rfl
  rw [body_rereadLoose_swapped rfl] at hdistinct
  have hsame := List.rel_of_pairwise_cons (Subgraph.everywhere_iff.1 hdistinct).1 List.mem_cons_self
  exact absurd hsame (by decide +kernel)

end Batch

end DotGraph
