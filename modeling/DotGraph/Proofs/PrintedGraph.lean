import DotGraph.Proofs.PrintedText

/-!
# The clauses of a graph

A graph as a declaration: a clause for each attribute of a container and one for each of its
statements. The text of a canonical graph spells that declaration, in every readable layout.
-/

namespace DotGraph

open Scan Grammar

variable {v : Vocabulary}

namespace Printer

def attributeClause : Item → Clause
  | (name, .text value) => .assign name value
  | (name, .implicit) => .graph [(name, .implicit)]

mutual

def statementClause (p : Printer) : Statement → Clause
  | .node n => .node n.name n.anchor (p.ordered n.attributes)
  | .edge e => p.edgeClause e
  | .subgraph g => .block (p.asBlock g)
  | .defaults d => .defaults d.kind (p.ordered d.attributes)
termination_by structural s => s

def edgeClause (p : Printer) : Edge → Clause
  | ⟨source, destination, attributes⟩ =>
    .edges (p.terminal source) (p.terminal destination) [] (p.ordered attributes)
termination_by structural e => e

def terminal (p : Printer) : Endpoint → Terminal
  | .node name anchor => .node name anchor
  | .subgraph g => .block (p.asBlock g)
termination_by structural e => e

def asBlock (p : Printer) : Subgraph → Block
  | ⟨name, attributes, statements⟩ =>
    ⟨name, (p.ordered attributes).map attributeClause ++ p.clauses statements⟩
termination_by structural g => g

def clauses (p : Printer) : List Statement → List Clause
  | [] => []
  | s :: ss => p.statementClause s :: p.clauses ss
termination_by structural ss => ss

end

/-- What the text of a graph declares. -/
def declaration (p : Printer) (g : Graph) : Declaration :=
  ⟨g.strict, g.kind, g.name, (p.asBlock g.body).clauses⟩

end Printer

/-- The text reads as these clauses in front of any others. -/
def SpellsClauses (v : Vocabulary) (text : String) (clauses : List Clause) : Prop :=
  ∃ xs, Spells v text xs ∧
    ∀ ys others, IsClauses ys others → IsClauses (xs ++ ys) (clauses ++ others)

lemma spellsClauses_empty : SpellsClauses v "" [] := ⟨[], spells_empty, fun _ _ h => h⟩

lemma SpellsClauses.append {s t : String} {as bs : List Clause} (hs : SpellsClauses v s as)
    (ht : SpellsClauses v t bs) : SpellsClauses v (s ++ t) (as ++ bs) := by
  obtain ⟨xs, hx, hxs⟩ := hs
  obtain ⟨ys, hy, hys⟩ := ht
  refine ⟨xs ++ ys, hx.append hy, fun zs others h => ?_⟩
  rw [List.append_assoc, List.append_assoc]
  exact hxs _ _ (hys zs others h)

lemma SpellsClauses.isClauses {text : String} {clauses : List Clause}
    (h : SpellsClauses v text clauses) : ∃ xs, IsClauses xs clauses ∧ Spells v text xs := by
  obtain ⟨xs, hs, hc⟩ := h
  refine ⟨xs, ?_, hs⟩
  simpa using hc [] [] .nil

/-- The text of a clause, with the semicolon behind it. -/
lemma spellsClauses_of_isClause {text : String} {xs : List Lexeme} {clause : Clause}
    (hc : IsClause xs clause) (hs : Spells v text (xs ++ [.symbol .semicolon])) :
    SpellsClauses v text [clause] := by
  refine ⟨_, hs, fun ys others h => ?_⟩
  rw [List.append_assoc]
  exact .cons hc (.semicolon h)

section Layout

variable {p : Printer} (hp : p.Fits v)
include hp

lemma indentation_blank (depth : Nat) :
    ∀ c ∈ (p.indentation depth).toList,
      Text.isBlank c = true ∧ (c.toNat < 0x80 ∨ c ∈ v.blanks) := by
  intro c hc
  rw [Printer.indentation, String.toList_join, List.mem_flatMap] at hc
  obtain ⟨text, ht, hc⟩ := hc
  rw [List.eq_of_mem_replicate ht] at hc
  exact ⟨hp.indent c hc, hp.indent_mem c hc⟩

lemma SpellsClauses.indented {text : String} {clauses : List Clause} (depth : Nat)
    (h : SpellsClauses v text clauses) :
    SpellsClauses v (p.indentation depth ++ text ++ "\n") clauses := by
  obtain ⟨xs, hs, hc⟩ := h
  refine ⟨xs, ?_, hc⟩
  have hline := ((spells_blanks (indentation_blank hp depth)).append hs).append spells_newline
  simpa using hline

lemma SpellsClauses.line {text : String} {clauses : List Clause} (depth : Nat)
    (h : SpellsClauses v text clauses) : SpellsClauses v (p.line depth text) clauses := by
  unfold Printer.line
  split
  · rename_i hempty
    rwa [String.isEmpty_iff.1 hempty] at h
  · exact h.indented hp depth

/-- The list at the end of a line, with the semicolon behind it. -/
lemma spells_suffix {a : Attributes} {items : List Item}
    (h : ∀ e ∈ items, v.ident e.1 ∧ ∀ value ∈ e.2.ident?, v.ident value)
    (ht : (p.ordered a).map Printer.item = items.map Printer.item) :
    ∃ ys, IsLists ys items ∧ Delimits (p.attributeSuffix a ++ ";") ∧
      Spells v (p.attributeSuffix a ++ ";") (ys ++ [.symbol .semicolon]) := by
  unfold Printer.attributeSuffix
  split
  · rename_i hempty
    have hitems : items = [] := by
      rw [Printer.ordered_eq_nil_iff.2 hempty, List.map_nil] at ht
      exact List.map_eq_nil_iff.1 ht.symm
    rw [String.empty_append, hitems]
    exact ⟨[], .nil, delimits_semicolon, spells_semicolon⟩
  · obtain ⟨ys, hitems, hlist⟩ := spells_bracketed hp.toIsReadable h ht
    refine ⟨_, hitems.lists, ?_,
      (spells_space.append hlist).append spells_semicolon⟩
    rw [String.append_assoc]
    exact delimits_space.append _

lemma spells_attributes {text : String} {xs : List Lexeme} {a : Attributes}
    (hs : SpellsWord v text xs) (ha : a.AllIdents v.ident) : ∃ ys, IsLists ys (p.ordered a) ∧
      Spells v (text ++ p.attributeSuffix a ++ ";") (xs ++ ys ++ [.symbol .semicolon]) := by
  obtain ⟨ys, hlists, hd, hy⟩ := spells_suffix hp (fun e he => ha e (Printer.mem_ordered he)) rfl
  refine ⟨ys, hlists, ?_⟩
  rw [String.append_assoc, List.append_assoc]
  exact hs.append hd hy

lemma spellsClauses_node {n : Node} (hn : n.AllIdents v.ident) :
    SpellsClauses v (p.node n) [p.statementClause (.node n)] := by
  obtain ⟨hname, hanchor, ha⟩ := hn
  obtain ⟨xs, ys, hid, hanc, hs⟩ := spells_anchored hname hanchor
  obtain ⟨zs, hlists, hs'⟩ := spells_attributes hp hs ha
  rw [Printer.node, (v.canonical _ hname).notKeyword, if_neg (by simp), Printer.statementClause]
  rw [List.append_assoc xs] at hs'
  exact spellsClauses_of_isClause (.node hid hanc hlists) hs'

/-- Defaults read as any items whose texts are those in the brackets. -/
lemma spellsClauses_defaults_items {d : Defaults} {items : List Item}
    (h : ∀ e ∈ items, v.ident e.1 ∧ ∀ value ∈ e.2.ident?, v.ident value)
    (ht : (p.ordered d.attributes).map Printer.item = items.map Printer.item) :
    SpellsClauses v (p.defaults d) [.defaults d.kind items] := by
  obtain ⟨xs, hitems, hlist⟩ := spells_bracketed hp.toIsReadable h ht
  refine spellsClauses_of_isClause
    (.defaults (keyword?_text d.kind.keyword) hitems.lists (List.cons_ne_nil _ _)) ?_
  have hkey := spells_keyword_space v d.kind.keyword
  exact (hkey.append hlist).append spells_semicolon

lemma spellsClauses_defaults {d : Defaults} (hd : d.attributes.AllIdents v.ident) :
    SpellsClauses v (p.defaults d) [p.statementClause (.defaults d)] := by
  rw [Printer.statementClause]
  exact spellsClauses_defaults_items hp (fun e he => hd e (Printer.mem_ordered he)) rfl

omit hp in
lemma spellsClauses_attribute {e : Item} (hn : v.ident e.1)
    (hv : ∀ value ∈ e.2.ident?, v.ident value) :
    SpellsClauses v (Printer.graphAttribute e) [Printer.attributeClause e] := by
  obtain ⟨name, value⟩ := e
  obtain ⟨xs, hid, hs⟩ := spells_ident hn
  cases value with
  | text value =>
    obtain ⟨ys, hid', hs'⟩ := spells_ident (hv value rfl)
    have hname := hs.append delimits_equals spells_equals
    have htext := (hname.append_word hs').append delimits_semicolon spells_semicolon
    apply spellsClauses_of_isClause (.assign hid hid')
    simpa [Printer.graphAttribute] using htext
  | implicit =>
    have hkey := spells_keyword_space v .graph
    have hopen : Spells v "[" [.symbol .openBracket] := spells_symbol rfl rfl (by simp)
    have hclose : Spells v "]" [.symbol .closeBracket] := spells_symbol rfl rfl (by simp)
    have htext := ((hkey.append hopen).append_word hs).append
      (delimits_of_toList rfl rfl (by decide)) (hclose.append spells_semicolon)
    refine spellsClauses_of_isClause
      (.graph (keyword?_text .graph) (IsItem.implicit hid).lists (List.cons_ne_nil _ _)) ?_
    have hprint : Printer.graphAttribute (name, .implicit) =
        Keyword.graph.text ++ " " ++ "[" ++ name.toDot ++ ("]" ++ ";") := rfl
    simpa [hprint] using htext

/-- Lines of attributes read as any items whose texts are those in the lines. -/
lemma spellsClauses_items {a : Attributes} {items : List Item}
    (h : ∀ e ∈ items, v.ident e.1 ∧ ∀ value ∈ e.2.ident?, v.ident value)
    (ht : (p.ordered a).map Printer.graphAttribute = items.map Printer.graphAttribute)
    (depth : Nat) :
    SpellsClauses v (p.attributeLines depth a) (items.map Printer.attributeClause) := by
  have hprint : p.attributeLines depth a = String.join
      ((items.map Printer.graphAttribute).map fun text => p.indentation depth ++ text ++ "\n") := by
    rw [← ht, List.map_map]
    rfl
  rw [hprint]
  clear ht hprint
  induction items with
  | nil => exact spellsClauses_empty
  | cons e items ih =>
    rw [List.map_cons, List.map_cons, String.join_cons]
    obtain ⟨hn, hv⟩ := h e List.mem_cons_self
    exact ((spellsClauses_attribute hn hv).indented hp depth).append
      (ih fun f hf => h f (List.mem_cons_of_mem e hf))

lemma spellsClauses_attributeLines {a : Attributes} (ha : a.AllIdents v.ident) (depth : Nat) :
    SpellsClauses v (p.attributeLines depth a) ((p.ordered a).map Printer.attributeClause) :=
  spellsClauses_items hp (fun e he => ha e (Printer.mem_ordered he)) rfl depth

omit hp in
lemma spells_openBrace : Spells v "\x7b\n" [.symbol .openBrace] := by
  have hopen : Spells v "\x7b" [.symbol .openBrace] := spells_symbol rfl rfl (by simp)
  exact hopen.append spells_newline

omit hp in
lemma spells_closeBrace : Spells v "\x7d" [.symbol .closeBrace] :=
  spells_symbol rfl rfl (by simp)

omit hp in
/-- The text that opens a subgraph opens a block of that name. -/
lemma spells_opening {name : Option Ident} (hn : ∀ x ∈ name, v.ident x) :
    ∃ xs, Spells v (Printer.opening name) xs ∧ ∀ ys clauses, IsClauses ys clauses →
      IsBlock (xs ++ (ys ++ [.symbol .closeBrace])) ⟨name, clauses⟩ := by
  cases name with
  | none => exact ⟨_, spells_openBrace, fun ys clauses hc => .bare hc⟩
  | some x =>
    obtain ⟨xs, hid, hx⟩ := spells_ident (hn x rfl)
    have hkey := spells_keyword_space v .subgraph
    have htext := ((hkey.append_word hx).append delimits_space spells_space).append spells_openBrace
    have hprint : Printer.opening (some x) =
        Keyword.subgraph.text ++ " " ++ x.toDot ++ " " ++ "\x7b\n" := by
      rw [← String.toList_inj]
      simp [Printer.opening, Keyword.text]
    rw [← hprint] at htext
    refine ⟨_, htext, fun ys clauses hc => ?_⟩
    simpa using IsBlock.subgraph (keyword?_text .subgraph) (.some hid) hc

omit hp in
lemma spells_container {name : Option Ident} {body : String} {clauses : List Clause}
    (hn : ∀ x ∈ name, v.ident x) (hb : SpellsClauses v body clauses) :
    ∃ xs, IsBlock xs ⟨name, clauses⟩ ∧ Spells v (Printer.opening name ++ body ++ "\x7d") xs := by
  obtain ⟨ys, hc, hs⟩ := hb.isClauses
  obtain ⟨xs, hx, hblock⟩ := spells_opening hn
  refine ⟨_, hblock ys clauses hc, ?_⟩
  rw [← List.append_assoc]
  exact (hx.append hs).append spells_closeBrace

end Layout

section Body

variable {p : Printer} {strict directed : Bool} (kind : GraphKind)

lemma spells_edgeOperator : ∃ x, IsEdgeOperator x ∧ Spells v kind.edgeOperator [x] := by
  cases kind with
  | graph => exact ⟨_, .line, fun _ _ hr => .line hr⟩
  | digraph => exact ⟨_, .arrow, fun _ _ hr => .arrow hr⟩

mutual

/-- Each line is the text of its clause, whatever the lines before it are. -/
lemma spellsClauses_lines (hp : p.Fits v) (depth : Nat) (earlier : List Edge) :
    (ss : List Statement) → (∀ s ∈ ss, s.AllIdents v.ident) →
    Statement.AllEverywhere (Subgraph.IsProper v.ident strict directed) ss →
    SpellsClauses v (p.lines kind false depth earlier ss) (p.clauses ss)
  | [], _, _ => spellsClauses_empty
  | .node n :: ss, hs, he => by
    rw [Printer.lines, Printer.clauses]
    have hn := spellsClauses_node hp (hs (.node n) List.mem_cons_self)
    exact (hn.line hp depth).append
      (spellsClauses_lines hp depth earlier ss (fun s hm => hs s (List.mem_cons_of_mem _ hm)) he.2)
  | .defaults d :: ss, hs, he => by
    rw [Printer.lines, Printer.clauses]
    have hd := spellsClauses_defaults hp (hs (.defaults d) List.mem_cons_self)
    exact (hd.line hp depth).append
      (spellsClauses_lines hp depth earlier ss (fun s hm => hs s (List.mem_cons_of_mem _ hm)) he.2)
  | .subgraph g :: ss, hs, he => by
    rw [Printer.lines, Printer.clauses, Printer.statementClause]
    obtain ⟨xs, hb, hx⟩ := spells_block hp (depth + 1) g he.1
    have hg : SpellsClauses v (p.block kind false (depth + 1) g) [.block (p.asBlock g)] :=
      ⟨xs, hx, fun ys others hc => .cons (.block hb) hc⟩
    exact (hg.line hp depth).append
      (spellsClauses_lines hp depth earlier ss (fun s hm => hs s (List.mem_cons_of_mem _ hm)) he.2)
  | .edge e :: ss, hs, he => by
    rw [Printer.lines, Printer.clauses, Printer.statementClause, Bool.false_and,
      if_neg Bool.false_ne_true]
    have hedge := spellsClauses_edge hp e (hs (.edge e) List.mem_cons_self) he.1
    exact (hedge.line hp depth).append (spellsClauses_lines hp depth (e :: earlier) ss
      (fun s hm => hs s (List.mem_cons_of_mem _ hm)) he.2)
termination_by structural ss => ss

lemma spellsClauses_edge (hp : p.Fits v) :
    (e : Edge) → (Statement.edge e).AllIdents v.ident →
    e.Everywhere (Subgraph.IsProper v.ident strict directed) →
    SpellsClauses v (p.edge kind e) [p.edgeClause e]
  | ⟨source, destination, attributes⟩, ⟨hs, hd, ha⟩, he => by
    obtain ⟨o, ho, hop⟩ := spells_edgeOperator kind
    obtain ⟨xs, hsource, hx⟩ := spells_endpoint hp source hs he.1
    obtain ⟨ys, hdestination, hy⟩ := spells_endpoint hp destination hd he.2
    have htext := ((hx.append delimits_space spells_space).append hop).append spells_space
    obtain ⟨zs, hlists, hz⟩ := spells_attributes hp (htext.append_word hy) ha
    rw [Printer.edge, Printer.edgeClause]
    apply spellsClauses_of_isClause (.edges hsource ho hdestination .nil hlists)
    simpa using hz
termination_by structural e => e

lemma spells_endpoint (hp : p.Fits v) :
    (e : Endpoint) → e.AllIdents v.ident →
    e.Everywhere (Subgraph.IsProper v.ident strict directed) →
    ∃ xs, IsTerminal xs (p.terminal e) ∧ SpellsWord v (p.endpoint kind e) xs
  | .node name anchor, hc, _ => by
    obtain ⟨xs, ys, hid, hanchor, hx⟩ := spells_anchored hc.1 hc.2
    rw [Printer.endpoint, Printer.terminal]
    exact ⟨_, .node hid hanchor, hx⟩
  | .subgraph g, _, he => by
    obtain ⟨xs, hb, hx⟩ := spells_block hp 1 g he
    rw [Printer.endpoint, Printer.terminal]
    exact ⟨xs, .block hb, hx.spellsWord⟩
termination_by structural e => e

lemma spells_block (hp : p.Fits v) (depth : Nat) :
    (g : Subgraph) → g.Everywhere (Subgraph.IsProper v.ident strict directed) →
    ∃ xs, IsBlock xs (p.asBlock g) ∧ Spells v (p.block kind false depth g) xs
  | ⟨name, attributes, statements⟩, he => by
    obtain ⟨hg, hss⟩ := he
    have hlines := (spellsClauses_attributeLines hp hg.attributes depth).append
      (spellsClauses_lines hp depth [] statements hg.statements hss)
    have hblank : SpellsClauses v (p.indentation (depth - 1)) [] :=
      ⟨[], spells_blanks (indentation_blank hp _), fun _ _ h => h⟩
    obtain ⟨xs, hb, hx⟩ := spells_container hg.name (hlines.append hblank)
    rw [List.append_nil] at hb
    refine ⟨xs, hb, ?_⟩
    rw [Printer.block]
    simpa only [String.append_assoc] using hx
termination_by structural g => g

end

end Body

/-- The name of a graph behind its keyword. -/
def nameText : Option Ident → String
  | some x => " " ++ x.toDot
  | none => ""

lemma header_eq (g : Graph) : Printer.header g =
    (if g.strict then Keyword.strict.text ++ " " else "") ++ (g.kind.keyword.text ++
      nameText g.name ++ " " ++ "\x7b\n") := by
  have hopen : " \x7b\n" = " " ++ "\x7b\n" := rfl
  have hstrict : "strict " = Keyword.strict.text ++ " " := rfl
  rw [Printer.header, hopen, hstrict]
  simp only [String.append_assoc]
  cases g.name <;> rfl

lemma spells_nameText {text : String} {xs : List Lexeme} {name : Option Ident}
    (hn : ∀ x ∈ name, v.ident x) (ht : SpellsWord v text xs) :
    ∃ ys, IsName ys name ∧ SpellsWord v (text ++ nameText name) (xs ++ ys) := by
  cases name with
  | none => exact ⟨[], .none, by simpa [nameText] using ht⟩
  | some x =>
    obtain ⟨ys, hid, hy⟩ := spells_ident (hn x rfl)
    refine ⟨ys, .some hid, ?_⟩
    have := (ht.append delimits_space spells_space).append_word hy
    simpa [nameText, String.append_assoc] using this

/-- The text that opens a graph opens a declaration. -/
lemma spells_header {g : Graph} (hn : ∀ x ∈ g.name, v.ident x) :
    ∃ xs, Spells v (Printer.header g) xs ∧ ∀ ys clauses, IsClauses ys clauses →
      IsDeclaration (xs ++ (ys ++ [.symbol .closeBrace])) ⟨g.strict, g.kind, g.name, clauses⟩ := by
  obtain ⟨xs, hname, hx⟩ := spells_nameText hn (spells_keyword g.kind.keyword)
  have hopen := (hx.append delimits_space spells_space).append spells_openBrace
  rw [header_eq]
  cases g.strict with
  | false =>
    refine ⟨_, spells_empty.append hopen, fun ys clauses hc => ?_⟩
    simpa using IsDeclaration.intro .absent (keyword?_text g.kind.keyword) hname hc
  | true =>
    refine ⟨_, (spells_keyword_space v .strict).append hopen, fun ys clauses hc => ?_⟩
    simpa using IsDeclaration.intro (.present (keyword?_text .strict))
      (keyword?_text g.kind.keyword) hname hc

lemma graph_eq (p : Printer) (g : Graph) : p.graph g = Printer.header g ++
    (p.attributeLines 1 g.body.attributes ++ p.lines g.kind g.simplify 1 [] g.body.statements ++
      ("\x7d" ++ "\n")) := by
  have hclose : "\x7d\n" = "\x7d" ++ "\n" := rfl
  rw [Printer.graph, hclose]
  simp only [String.append_assoc]
  rfl

/-- The text of a graph of canonical identifiers spells its declaration, whether edges repeat or
not. -/
theorem spells_graph {p : Printer} (hp : p.Fits v) {g : Graph} {strict directed : Bool}
    (hg : g.body.Everywhere (Subgraph.IsProper v.ident strict directed))
    (hs : g.simplify = false) :
    ∃ xs, IsDeclaration xs (p.declaration g) ∧ Spells v (p.graph g) xs := by
  obtain ⟨hbody, hss⟩ := Subgraph.everywhere_iff.1 hg
  have hlines := (spellsClauses_attributeLines hp hbody.attributes 1).append
    (spellsClauses_lines g.kind hp 1 [] g.body.statements hbody.statements
      (Statement.allEverywhere_iff.2 hss))
  obtain ⟨ys, hc, hy⟩ := hlines.isClauses
  obtain ⟨xs, hheader, hdeclaration⟩ := spells_header hbody.name
  have hclauses : (p.declaration g).clauses =
      (p.ordered g.body.attributes).map Printer.attributeClause ++ p.clauses g.body.statements := by
    obtain ⟨kind, strict, simplify, name, attributes, statements⟩ := g
    rw [Printer.declaration, Printer.asBlock]
  rw [← hclauses] at hc
  refine ⟨_, hdeclaration ys _ hc, ?_⟩
  rw [graph_eq, hs]
  simpa using hheader.append (hy.append (spells_closeBrace.append spells_newline))

end DotGraph
