import DotGraph.Proofs.GrammarComplete
import DotGraph.Proofs.ParsedGraph

/-!
# Round trips

The text of a canonical graph is read back as that graph. A graph that was read from a source is
canonical and settled, so writing it and reading the text gives it back, in every readable layout
and with or without handing down defaults.
-/

namespace DotGraph

open Scan Grammar

namespace Graph

/-- The defaults of the graph have been handed down already, where the reader does so. -/
def Settled (reader : Reader) (g : Graph) : Prop :=
  g.body.Settled ⟨reader.inheritDefaults, g.strict, g.kind.isDirected⟩ {}

end Graph

/-! ### From graphs to texts and back -/

section Layout

variable {p : Printer} (hp : p.IsReadable)

/-- The canonical identifiers, in texts that the printer lays out. -/
def Printer.vocabulary (p : Printer) : Vocabulary where
  blanks := p.indent.toList
  ident := Ident.IsCanonical
  canonical _ h := h

include hp

lemma Printer.IsReadable.fits : p.Fits p.vocabulary := ⟨hp, fun _ hc => .inr hc⟩

lemma laidOut_graphs {gs : List Graph} (h : ∀ g ∈ gs, g.IsWritable ∧ g.simplify = false) :
    ∃ xs, IsDeclarations xs (gs.map p.declaration) ∧
      LaidOut p.vocabulary (p.graphs gs).toList xs := by
  induction gs with
  | nil => exact ⟨[], .nil, .nil⟩
  | cons g gs ih =>
    obtain ⟨hg, hs⟩ := h g List.mem_cons_self
    obtain ⟨xs, hd, hx⟩ := spells_graph hp.fits hg hs
    obtain ⟨ys, hds, hy⟩ := ih fun g' hg' => h g' (List.mem_cons_of_mem _ hg')
    refine ⟨xs ++ ys, .cons hd hds, ?_⟩
    rw [Printer.graphs, List.map_cons, String.join_cons, String.toList_append]
    exact hx _ _ hy

/-- The text of writable graphs is read as their declarations. -/
theorem ofString_graphs {gs : List Graph} (h : ∀ g ∈ gs, g.IsWritable ∧ g.simplify = false)
    (hne : gs ≠ []) : Document.ofString (p.graphs gs) = .ok (gs.map p.declaration) := by
  obtain ⟨xs, hd, hx⟩ := laidOut_graphs hp h
  obtain ⟨tokens, ht, rfl⟩ := reads_of_front (fun _ _ => hx.reads) {}
  have hdoc := (document_iff tokens.list (gs.map p.declaration)).2 ⟨hd, by simpa using hne⟩
  rw [Document.ofString, Tokens.ofString, ht]
  show Document.ofTokens tokens = _
  rw [Document.ofTokens, hdoc]
  rfl

omit hp in
lemma Printer.graphs_singleton (p : Printer) (g : Graph) : p.graphs [g] = p.graph g := by
  rw [Printer.graphs, List.map_singleton, String.join_cons, String.join_nil, String.append_empty]

/-- The text of a writable graph is read as the graph that it declares. -/
lemma Graph.IsWritable.parse_graph {g : Graph} (hg : g.IsWritable) (hsimple : g.simplify = false)
    (reader : Reader) : reader.parse (p.graph g) =
      .ok (.single ((p.declaration g).toGraph reader.inheritDefaults)) := by
  have hall : ∀ g' ∈ [g], g'.IsWritable ∧ g'.simplify = false := by simpa using ⟨hg, hsimple⟩
  have hdocument := ofString_graphs hp hall (List.cons_ne_nil g [])
  rw [p.graphs_singleton] at hdocument
  rw [Reader.parse, hdocument]
  rfl

omit hp in
/-- A settled canonical graph is what its declaration describes. -/
theorem toGraph_declaration (hs : p.sortAttributes = false) {reader : Reader} {g : Graph}
    (hg : g.IsCanonical) (hsimple : g.simplify = false) (hset : g.Settled reader) :
    (p.declaration g).toGraph reader.inheritDefaults = g := by
  have hbody : (p.asBlock g.body).subgraph
      ⟨reader.inheritDefaults, g.strict, g.kind.isDirected⟩ {} = g.body :=
    subgraph_asBlock hs g.body {} hg hset
  obtain ⟨kind, strict, simplify, name, attributes, statements⟩ := g
  cases hsimple
  rw [Declaration.toGraph]
  exact congrArg (Graph.mk kind strict false) hbody

theorem parse_graphs (hs : p.sortAttributes = false) {reader : Reader} {gs : List Graph}
    (h : ∀ g ∈ gs, g.IsCanonical ∧ g.simplify = false) (hset : ∀ g ∈ gs, g.Settled reader)
    (hne : gs ≠ []) : reader.parse (p.graphs gs) = .ok (.ofList gs) := by
  have hgraphs : reader.graphs (gs.map p.declaration) = gs := by
    rw [Reader.graphs, List.map_map]
    refine (List.map_congr_left fun g hg => ?_).trans (List.map_id gs)
    exact toGraph_declaration hs (h g hg).1 (h g hg).2 (hset g hg)
  have hwritable : ∀ g ∈ gs, g.IsWritable ∧ g.simplify = false :=
    fun g hg => ⟨(h g hg).1.isWritable, (h g hg).2⟩
  rw [Reader.parse, ofString_graphs hp hwritable hne]
  simp only [hgraphs]

end Layout

/-! ### Graphs without inherited defaults -/

section Settled

variable {rules : Rules}

mutual

lemma Statement.settled_of_not_inherit (hr : rules.inheritDefaults = false) :
    (s : Statement) → (scope : Scope) → s.Settled rules scope
  | .node n, scope => by
    rw [Statement.Settled, Rules.inherited, hr, if_neg Bool.false_ne_true]
    exact n.attributes.absorbs_empty
  | .edge e, scope => Edge.settled_of_not_inherit hr e scope
  | .subgraph g, scope => Subgraph.settled_of_not_inherit hr g scope
  | .defaults _, _ => trivial
termination_by structural s => s

lemma Edge.settled_of_not_inherit (hr : rules.inheritDefaults = false) :
    (e : Edge) → (scope : Scope) → e.Settled rules scope
  | ⟨source, destination, attributes⟩, scope => by
    rw [Edge.Settled, Rules.inherited, hr, if_neg Bool.false_ne_true]
    exact ⟨Endpoint.settled_of_not_inherit hr source scope,
      Endpoint.settled_of_not_inherit hr destination scope, attributes.absorbs_empty⟩
termination_by structural e => e

lemma Endpoint.settled_of_not_inherit (hr : rules.inheritDefaults = false) :
    (e : Endpoint) → (scope : Scope) → e.Settled rules scope
  | .node _ _, _ => trivial
  | .subgraph g, scope => Subgraph.settled_of_not_inherit hr g scope
termination_by structural e => e

lemma Subgraph.settled_of_not_inherit (hr : rules.inheritDefaults = false) :
    (g : Subgraph) → (scope : Scope) → g.Settled rules scope
  | ⟨_, _, statements⟩, scope => Statement.allSettled_of_not_inherit hr statements scope
termination_by structural g => g

lemma Statement.allSettled_of_not_inherit (hr : rules.inheritDefaults = false) :
    (ss : List Statement) → (scope : Scope) → Statement.AllSettled rules scope ss
  | [], _ => trivial
  | s :: ss, scope =>
    ⟨Statement.settled_of_not_inherit hr s scope,
      Statement.allSettled_of_not_inherit hr ss (scope.after s)⟩
termination_by structural ss => ss

end

end Settled

/-- A canonical graph is read back from its text, where no defaults are handed down. -/
theorem Graph.IsCanonical.parse_text {g : Graph} (hg : g.IsCanonical) (hs : g.simplify = false) :
    Reader.parse ⟨false⟩ g.text = .ok (.single g) := by
  have htext : ({} : Printer).graphs [g] = g.text := by
    rw [Printer.graphs, List.map_singleton, String.join_cons, String.join_nil, String.append_empty,
      Graph.text]
  rw [← htext]
  have hcanonical : ∀ g' ∈ [g], g'.IsCanonical ∧ g'.simplify = false := by simpa using ⟨hg, hs⟩
  refine parse_graphs Printer.isReadable_default rfl hcanonical ?_ (List.cons_ne_nil g [])
  intro g' hg'
  rw [List.mem_singleton] at hg'
  exact hg' ▸ Subgraph.settled_of_not_inherit rfl g.body {}

/-- A node with an anchor, a subgraph and an edge into a block. -/
def Graph.nested : Graph where
  kind := .digraph
  strict := true
  body := ⟨some ⟨"a"⟩, .ofList [(⟨"a"⟩, .text ⟨"b"⟩)],
    [.node ⟨⟨"a"⟩, some "b", .ofList [(⟨"b"⟩, .implicit)]⟩,
      .subgraph ⟨none, .empty, [.node ⟨⟨"a"⟩, none, .empty⟩]⟩,
      .edge ⟨.node ⟨"a"⟩ none, .subgraph ⟨some ⟨"b"⟩, .empty, [.node ⟨⟨"b"⟩, none, .empty⟩]⟩,
        .empty⟩]⟩

lemma isCanonical_letter {c : Char} (hc : Ident.isNameStart c = true)
    (hb : Text.isBlank c = false) (hk : Keyword.ofText? (String.ofList [c]) = none) :
    Ident.IsCanonical ⟨String.ofList [c]⟩ :=
  Ident.isCanonical_name ⟨c, [], String.toList_ofList, hb, .name hc⟩ hk

theorem Graph.nested_parse_text : Graph.nested.IsCanonical ∧ Graph.nested.simplify = false ∧
    Reader.parse ⟨false⟩ Graph.nested.text = .ok (.single Graph.nested) := by
  have ha : Ident.IsCanonical ⟨"a"⟩ := isCanonical_letter (c := 'a') rfl rfl (by decide +kernel)
  have hb : Ident.IsCanonical ⟨"b"⟩ := isCanonical_letter (c := 'b') rfl rfl (by decide +kernel)
  have hanchor : IsAnchorText Ident.IsCanonical "b" := .inl ⟨⟨"b"⟩, hb, rfl⟩
  have hempty : Attributes.AllIdents Ident.IsCanonical .empty := Attributes.allIdents_empty
  have hvalue : Attributes.AllIdents Ident.IsCanonical (.ofList [(⟨"a"⟩, .text ⟨"b"⟩)]) :=
    hempty.set ha (by simp [AttrValue.ident?, hb])
  have himplicit : Attributes.AllIdents Ident.IsCanonical (.ofList [(⟨"b"⟩, .implicit)]) :=
    hempty.set hb (by simp [AttrValue.ident?])
  have hblock (name : Option Ident) (hn : ∀ y ∈ name, y.IsCanonical) {x : Ident}
      (hx : x.IsCanonical) :
      Subgraph.IsProper Ident.IsCanonical true true ⟨name, .empty, [.node ⟨x, none, .empty⟩]⟩ := by
    refine ⟨hn, hempty, ?_, List.pairwise_singleton _ _, fun _ => List.Pairwise.nil⟩
    simp [Statement.AllIdents, Node.AllIdents, hx, hempty]
  have hbody : Subgraph.IsProper Ident.IsCanonical true true Graph.nested.body := by
    refine ⟨by simp [Graph.nested, ha], hvalue, ?_, List.pairwise_singleton _ _,
      fun _ => List.pairwise_singleton _ _⟩
    simp [Statement.AllIdents, Node.AllIdents, Endpoint.AllIdents, Graph.nested, ha, hanchor,
      himplicit, hempty]
  have hg : Graph.nested.IsCanonical :=
    ⟨hbody, trivial, ⟨hblock none (by simp) ha, trivial, trivial⟩,
      ⟨trivial, hblock _ (by simp [hb]) hb, trivial, trivial⟩, trivial⟩
  exact ⟨hg, rfl, hg.parse_text rfl⟩

/-! ### Graphs that were read -/

lemma Parsed.toList_ofList (gs : List Graph) : (Parsed.ofList gs).toList = gs := by
  unfold Parsed.ofList
  split <;> rfl

namespace Reader

lemma parse_eq_ok_iff {reader : Reader} {source : String} {parsed : Parsed} :
    reader.parse source = .ok parsed ↔
      ∃ document, Document.ofString source = .ok document ∧
        parsed = .ofList (reader.graphs document) := by
  rw [parse]
  cases Document.ofString source <;> simp [eq_comm]

/-- A source whose lexemes derive one graph is read as that graph. -/
lemma parse_of_lexemes {reader : Reader} {source : String} {xs : List Lexeme} {d : Declaration}
    (h : (Tokens.ofString source).map (fun tokens => lexemes tokens.list) = .ok xs)
    (hd : IsDeclaration xs d) :
    reader.parse source = .ok (.single (d.toGraph reader.inheritDefaults)) := by
  have hdocument : IsDocument (xs ++ []) [d] := ⟨.cons hd .nil, List.cons_ne_nil d []⟩
  rw [List.append_nil] at hdocument
  exact parse_eq_ok_iff.2 ⟨[d], ofString_of_lexemes h hdocument, rfl⟩

/-- What is known of graphs that were read: there is one, and each is proper and settled at every
depth, as far as `W` holds of the identifiers that the source spells. -/
lemma proper_of_parse {W : Ident → Prop} {reader : Reader} {source : String} {parsed : Parsed}
    (hW : ∀ tokens, Tokens.ofString source = .ok tokens →
      ∀ x, IsSpelled (lexemes tokens.list) x → W x)
    (h : reader.parse source = .ok parsed) :
    parsed = .ofList parsed.toList ∧ parsed.toList ≠ [] ∧
      ∀ g ∈ parsed.toList,
        g.body.Everywhere (Subgraph.IsProper W g.strict g.kind.isDirected) ∧
          g.simplify = false ∧ g.Settled reader := by
  obtain ⟨document, hdoc, rfl⟩ := parse_eq_ok_iff.1 h
  obtain ⟨tokens, ht, hderives, hne⟩ := ofString_eq_ok_iff.1 hdoc
  rw [Parsed.toList_ofList]
  refine ⟨rfl, by simpa [graphs] using hne, fun g hg => ?_⟩
  obtain ⟨d, hd, rfl⟩ := List.mem_map.1 hg
  have hidents := allIdents_of_isDeclarations (hW tokens ht) hderives (List.Subset.refl _) d hd
  obtain ⟨hproper, hsettled⟩ := @toGraph_builds _ reader.inheritDefaults d hidents
  exact ⟨hproper, rfl, hsettled⟩

/-- The words that spell an identifier of a source are words of that source. -/
lemma isWord_of_isSpelled {source : String} {tokens : Tokens}
    (ht : Tokens.ofString source = .ok tokens) {x : Ident}
    (hx : IsSpelled (lexemes tokens.list) x) :
    ∃ xs, IsIdent xs x ∧ xs ⊆ lexemes tokens.list ∧
      ∀ kind text, .word kind text ∈ xs → IsWord kind text := by
  obtain ⟨xs, hident, hsub⟩ := hx
  refine ⟨xs, hident, hsub, fun kind text hmem => ?_⟩
  obtain ⟨token, htoken, hlexeme⟩ := List.mem_map.1 (hsub hmem)
  exact isWord_of_tokensFrom ht htoken hlexeme

/-- Graphs that were read from a source without the numeral of a sign and a point are canonical. -/
theorem graphs_of_parse {reader : Reader} {source : String} {parsed : Parsed}
    (ha : AvoidsSignedPoint source) (h : reader.parse source = .ok parsed) :
    parsed = .ofList parsed.toList ∧ parsed.toList ≠ [] ∧
      ∀ g ∈ parsed.toList, g.IsCanonical ∧ g.simplify = false ∧ g.Settled reader := by
  refine proper_of_parse (fun tokens ht x hx => ?_) h
  obtain ⟨xs, hident, hsub, hwords⟩ := isWord_of_isSpelled ht hx
  apply Ident.isCanonical_of_isIdent hident hwords
  intro hmem
  obtain ⟨token, htoken, hlexeme⟩ := List.mem_map.1 (hsub hmem)
  exact ha tokens ht token htoken hlexeme

/-- Writing what was read and reading the text gives the same graphs, and the same text again. -/
theorem parse_graphs_of_parse {reader : Reader} {p : Printer} {source : String} {parsed : Parsed}
    (hp : p.IsReadable) (hs : p.sortAttributes = false) (ha : AvoidsSignedPoint source)
    (h : reader.parse source = .ok parsed) :
    reader.parse (p.graphs parsed.toList) = .ok parsed ∧
      ∀ again, reader.parse (p.graphs parsed.toList) = .ok again →
        p.graphs again.toList = p.graphs parsed.toList := by
  obtain ⟨hlist, hne, hgraphs⟩ := graphs_of_parse ha h
  have hread : reader.parse (p.graphs parsed.toList) = .ok parsed := by
    rw [parse_graphs hp hs (fun g hg => ⟨(hgraphs g hg).1, (hgraphs g hg).2.1⟩)
      (fun g hg => (hgraphs g hg).2.2) hne, ← hlist]
  refine ⟨hread, fun again hagain => ?_⟩
  rw [hread] at hagain
  cases hagain
  rfl

/-- Defaults are handed down and a node is declared twice. -/
theorem parse_graphs_of_parse_merged :
    Printer.IsReadable {} ∧ AvoidsSignedPoint "graph\x7bnode[k];a;a[b]\x7d" ∧
      ∃ parsed, Reader.parse {} "graph\x7bnode[k];a;a[b]\x7d" = .ok parsed ∧
        Reader.parse {} (({} : Printer).graphs parsed.toList) = .ok parsed := by
  have hk : IsIdent [.word .name "k"] ⟨"k"⟩ := .name (by decide +kernel)
  have ha : IsIdent [.word .name "a"] ⟨"a"⟩ := .name (by decide +kernel)
  have hb : IsIdent [.word .name "b"] ⟨"b"⟩ := .name (by decide +kernel)
  have hnode : IsClause (.word .name "node" :: _) (.defaults .node _) :=
    .defaults rfl (IsItem.implicit hk).lists (List.cons_ne_nil _ _)
  have hclauses := IsClauses.cons hnode (.semicolon (.cons (.node ha .none .nil)
    (.semicolon (.cons (.node ha .none (IsItem.implicit hb).lists) .nil))))
  have hdoc : IsDeclaration _ ⟨false, .graph, none, _⟩ :=
    .intro .absent (keyword?_text .graph) .none hclauses
  have hread : Reader.parse {} "graph\x7bnode[k];a;a[b]\x7d" = .ok _ := parse_eq_ok_iff.2
    ⟨_, ofString_of_lexemes (by decide +kernel) ⟨.cons hdoc .nil, List.cons_ne_nil _ _⟩, rfl⟩
  have havoids : AvoidsSignedPoint "graph\x7bnode[k];a;a[b]\x7d" := by decide +kernel
  exact ⟨Printer.isReadable_default, havoids, _, hread,
    (parse_graphs_of_parse Printer.isReadable_default rfl havoids hread).1⟩

end Reader

end DotGraph
