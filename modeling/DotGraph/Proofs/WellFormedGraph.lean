import DotGraph.Proofs.RoundTrip
import DotGraph.Proofs.WrittenIdent

/-!
# Well-formed graphs

What callers may rely on in every graph that was read, whatever the source. In each container, the
blocks at the ends of edges included, a name stands for one node, and in strict graphs two
endpoints are joined by one edge. Each store holds a key once. Each identifier is no keyword and
is one token by itself, also where it was put together from several literals.
-/

namespace DotGraph

open Scan Grammar

/-! ### Identifiers that were read -/

/-- An identifier that is no keyword and whose text is one token. -/
structure Ident.IsToken (x : Ident) : Prop where
  notKeyword : x.isKeyword = false
  token : IsIdentText x.text

namespace Ident

/-- The word that an identifier was spelled by, or put together from. -/
lemma exists_isWord_of_isIdent {xs : List Lexeme} {x : Ident} (h : IsIdent xs x)
    (hx : ∀ kind text, .word kind text ∈ xs → IsWord kind text) :
    ∃ kind, IsWord kind x.text ∧ (Lexeme.word kind x.text).keyword? = none := by
  cases h with
  | name hk => exact ⟨.name, hx _ _ List.mem_cons_self, hk⟩
  | numeral text => exact ⟨.numeral, hx _ _ List.mem_cons_self, rfl⟩
  | html text => exact ⟨.html, hx _ _ List.mem_cons_self, rfl⟩
  | @quoted a b xs h =>
    have ha : IsWord .quoted a := hx _ _ List.mem_cons_self
    have htail (kind : WordKind) (text : String) (hmem : .word kind text ∈ xs) :
        IsWord kind text := hx kind text (List.mem_cons_of_mem _ hmem)
    exact ⟨.quoted, isWord_concatenation h ha htail, rfl⟩

lemma not_isKeyword_of_isWord {x : Ident} {kind : WordKind} (hw : IsWord kind x.text)
    (hk : (Lexeme.word kind x.text).keyword? = none) : x.isKeyword = false := by
  cases kind with
  | name => exact Option.isSome_eq_false_iff.2 (Option.isNone_iff_eq_none.2 hk)
  | numeral =>
    obtain ⟨c, cs, ht, hc⟩ := hw.numeral_head
    exact isKeyword_eq_false ht hc
  | quoted =>
    obtain ⟨body, -, ht⟩ := isWord_quoted_iff.1 hw
    exact isKeyword_eq_false ht rfl
  | html =>
    obtain ⟨body, ht⟩ := hw.html_text
    exact isKeyword_eq_false ht rfl

lemma isToken_of_isSpelled {source : String} {tokens : Tokens}
    (ht : Tokens.ofString source = .ok tokens) {x : Ident}
    (hx : IsSpelled (lexemes tokens.list) x) : x.IsToken := by
  obtain ⟨xs, hident, -, hwords⟩ := Reader.isWord_of_isSpelled ht hx
  obtain ⟨kind, hw, hk⟩ := exists_isWord_of_isIdent hident hwords
  exact ⟨not_isKeyword_of_isWord hw hk, isIdentText_iff.2 ⟨kind, hw, hk⟩⟩

end Ident

/-! ### Containers that were read -/

/-- The attributes that a statement holds, those in its blocks left aside. -/
def Statement.attributes? : Statement → Option Attributes
  | .node n => some n.attributes
  | .edge e => some e.attributes
  | .subgraph _ => none
  | .defaults d => some d.attributes

namespace Subgraph

/-- The stores of a container, its own and those of its statements. -/
def stores (g : Subgraph) : List Attributes :=
  g.attributes :: g.statements.filterMap Statement.attributes?

/-- What a reader promises of a container. -/
structure IsWellFormed (strict directed : Bool) (g : Subgraph) : Prop where
  nodes : g.HasDistinctNodes
  edges : strict = true → g.HasDistinctEdges directed
  keys : ∀ a ∈ g.stores, a.names.Nodup
  name : ∀ x ∈ g.name, x.IsToken
  attributes : g.attributes.AllIdents Ident.IsToken
  statements : ∀ s ∈ g.statements, s.AllIdents Ident.IsToken

lemma IsProper.isWellFormed {strict directed : Bool} {g : Subgraph}
    (h : g.IsProper Ident.IsToken strict directed) : g.IsWellFormed strict directed where
  nodes := h.nodes
  edges := h.edges
  keys a _ := a.nodup_keys
  name := h.name
  attributes := h.attributes
  statements := h.statements

end Subgraph

namespace Reader

/-- Every container of a graph that was read is well-formed, at every depth. -/
theorem parse_isWellFormed {reader : Reader} {source : String} {parsed : Parsed}
    (h : reader.parse source = .ok parsed) :
    ∀ g ∈ parsed.toList,
      g.body.Everywhere (Subgraph.IsWellFormed g.strict g.kind.isDirected) := by
  obtain ⟨-, -, hgraphs⟩ := proper_of_parse (fun _ ht _ hx => Ident.isToken_of_isSpelled ht hx) h
  intro g hg
  have hproper := (hgraphs g hg).1
  exact Subgraph.Everywhere.mono (fun _ hp => hp.isWellFormed) g.body hproper

/-- The two edges are merged, although the second is drawn the other way round and spells the name
in one literal. -/
theorem parse_isWellFormed_merged :
    ∃ parsed,
      Reader.parse {} "strict graph\x7b\"a\"+\"b\"--\x7bc;c[k]\x7d;\x7bc;c[k]\x7d--\"ab\"\x7d" =
          .ok parsed ∧
        parsed.toList.map (fun g => g.body.edges.length) = [1] ∧
        ∀ g ∈ parsed.toList,
          g.body.Everywhere (Subgraph.IsWellFormed g.strict g.kind.isDirected) := by
  have hc : IsIdent [.word .name "c"] ⟨"c"⟩ := .name (by decide +kernel)
  have hk : IsIdent [.word .name "k"] ⟨"k"⟩ := .name (by decide +kernel)
  have hjoined : IsIdent [.word .quoted "\"a\"", .symbol .plus, .word .quoted "\"b\""]
      ⟨"\"ab\""⟩ := .quoted (.cons (.nil "\"ab\""))
  have hwhole : IsIdent [.word .quoted "\"ab\""] ⟨"\"ab\""⟩ := .quoted (.nil _)
  have hblock := IsBlock.bare (.cons (.node hc .none .nil)
    (.semicolon (.cons (.node hc .none (IsItem.implicit hk).lists) .nil)))
  have hfirst := IsClause.edges (.node hjoined .none) .line (.block hblock) .nil .nil
  have hsecond := IsClause.edges (.block hblock) .line (.node hwhole .none) .nil .nil
  have hdoc : IsDeclaration _ ⟨true, .graph, none, _⟩ :=
    .intro (.present (keyword?_text .strict)) (keyword?_text .graph) .none
      (.cons hfirst (.semicolon (.cons hsecond .nil)))
  have hread : Reader.parse {}
      "strict graph\x7b\"a\"+\"b\"--\x7bc;c[k]\x7d;\x7bc;c[k]\x7d--\"ab\"\x7d" = .ok _ :=
    parse_of_lexemes (by decide +kernel) hdoc
  exact ⟨_, hread, by decide +kernel, parse_isWellFormed hread⟩

end Reader

end DotGraph
