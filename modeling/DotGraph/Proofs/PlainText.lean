import DotGraph.Proofs.ListKeywords
import DotGraph.Proofs.PlainName
import DotGraph.Proofs.RoundTrip
import DotGraph.Proofs.Simplified

/-!
# Texts of plain graphs

A graph whose names, attributes and values are plain can be read back from its text, unless a node
is named by a keyword that takes no list and has attributes: its line is the bare keyword with a
list behind it, which is no clause. Texts are read from the back, and the lexemes of each piece
tell whether there is such a node in it.
-/

namespace DotGraph

open Scan Grammar

/-! ### Plain graphs -/

def Endpoint.IsUnanchored : Endpoint → Prop
  | .node _ anchor => anchor = none
  | .subgraph _ => True

/-- No anchor stands in the statement, its blocks left aside. -/
def Statement.IsUnanchored : Statement → Prop
  | .node n => n.anchor = none
  | .edge e => e.source.IsUnanchored ∧ e.destination.IsUnanchored
  | .subgraph _ => True
  | .defaults _ => True

/-- A container without anchors, in which all names, attributes and values are plain. -/
structure Subgraph.IsPlain (g : Subgraph) : Prop where
  name : ∀ x ∈ g.name, x.IsAsciiName
  attributes : g.attributes.AllIdents Ident.IsAsciiName
  statements : ∀ s ∈ g.statements, s.AllIdents Ident.IsAsciiName
  unanchored : ∀ s ∈ g.statements, s.IsUnanchored

lemma Subgraph.IsPlain.simplified {g : Subgraph} (h : g.IsPlain) (directed : Bool) :
    (g.simplified directed).IsPlain := by
  obtain ⟨name, attributes, statements⟩ := g
  refine ⟨h.name, h.attributes, fun s hs => ?_, fun s hs => ?_⟩
  · rcases Statement.mem_simplifyAll hs with hmem | ⟨block, rfl⟩
    · exact h.statements s hmem
    · trivial
  · rcases Statement.mem_simplifyAll hs with hmem | ⟨block, rfl⟩
    · exact h.unanchored s hmem
    · trivial

/-- A node with attributes that is named by a keyword which takes no list. -/
def Node.IsStray (n : Node) : Prop :=
  n.attributes.isEmpty = false ∧ ∃ k ∈ Keyword.ofText? n.name.text, k.takesList = false

instance (n : Node) : Decidable n.IsStray :=
  inferInstanceAs (Decidable (n.attributes.isEmpty = false ∧
    ∃ k ∈ Keyword.ofText? n.name.text, k.takesList = false))

def Subgraph.HasNoStray (g : Subgraph) : Prop := ∀ n ∈ g.nodes, ¬ n.IsStray

/-- No node of the statement is stray, at any depth. -/
def Statement.HasNoStray (s : Statement) : Prop :=
  (∀ n ∈ s.node?, ¬ n.IsStray) ∧ s.Everywhere Subgraph.HasNoStray

lemma Subgraph.everywhere_hasNoStray_iff {g : Subgraph} :
    g.Everywhere HasNoStray ↔ ∀ s ∈ g.statements, s.HasNoStray := by
  have hnodes : g.HasNoStray ↔ ∀ s ∈ g.statements, ∀ n ∈ s.node?, ¬ n.IsStray := by
    simp only [HasNoStray, nodes, List.mem_filterMap]
    constructor
    · intro h s hs n hn
      exact h n ⟨s, hs, hn⟩
    · rintro h n ⟨s, hs, hn⟩
      exact h s hs n hn
  rw [everywhere_iff, hnodes]
  exact forall₂_and.symm

section Statement

variable {n : Node} {e : Edge} {g : Subgraph} {d : Defaults}

lemma Statement.hasNoStray_node : ¬ n.IsStray ↔ (Statement.node n).HasNoStray := by
  simp [HasNoStray, node?, Everywhere]

lemma Statement.hasNoStray_defaults : True ↔ (Statement.defaults d).HasNoStray := by
  simp [HasNoStray, node?, Everywhere]

lemma Statement.hasNoStray_subgraph :
    g.Everywhere Subgraph.HasNoStray ↔ (Statement.subgraph g).HasNoStray := by
  simp [HasNoStray, node?, Everywhere]

lemma Statement.hasNoStray_edge :
    e.Everywhere Subgraph.HasNoStray ↔ (Statement.edge e).HasNoStray := by
  simp [HasNoStray, node?, Everywhere]

end Statement

/-! ### Pieces of text -/

/-- The text reads as these lexemes in front of anything. -/
def Scans (text : String) (xs : List Lexeme) : Prop :=
  ∀ cs ys, Reads cs ys → Reads (text.toList ++ cs) (xs ++ ys)

/-- The text reads as these lexemes in front of anything that it does not run into. -/
def ScansWord (text : String) (xs : List Lexeme) : Prop :=
  ∀ cs ys, Ends cs → Reads cs ys → Reads (text.toList ++ cs) (xs ++ ys)

section Scans

variable {s t : String} {xs ys : List Lexeme}

lemma Spells.scans {v : Vocabulary} (h : Spells v s xs) : Scans s xs := by
  have hlaid := h [] [] .nil
  rw [List.append_nil, List.append_nil] at hlaid
  exact fun cs ys hr => hlaid.reads hr

lemma Scans.scansWord (h : Scans s xs) : ScansWord s xs := fun cs ys _ hr => h cs ys hr

lemma Scans.append (hs : Scans s xs) (ht : Scans t ys) : Scans (s ++ t) (xs ++ ys) := by
  intro cs zs hr
  rw [String.toList_append, List.append_assoc, List.append_assoc]
  exact hs _ _ (ht cs zs hr)

lemma Scans.append_word (hs : Scans s xs) (ht : ScansWord t ys) :
    ScansWord (s ++ t) (xs ++ ys) := by
  intro cs zs hc hr
  rw [String.toList_append, List.append_assoc, List.append_assoc]
  exact hs _ _ (ht cs zs hc hr)

lemma ScansWord.append (hs : ScansWord s xs) (hd : Delimits t) (ht : Scans t ys) :
    Scans (s ++ t) (xs ++ ys) := by
  intro cs zs hr
  rw [String.toList_append, List.append_assoc, List.append_assoc]
  exact hs _ _ (Breaks.append hd cs).2 (ht cs zs hr)

lemma scansWord_of_isWord {kind : WordKind} (h : IsWord kind s) : ScansWord s [.word kind s] :=
  fun _ _ hc hr => hr.word h hc

end Scans

/-! ### Clauses -/

/-- Where `ok` holds the lexemes derive what `D` says, and where it does not, a list stands behind
a keyword that takes none. -/
structure Decides (D : List Lexeme → Prop) (ok : Prop) (xs : List Lexeme) : Prop where
  derives : ok → D xs
  guarded : IsGuarded xs → ok

lemma Decides.mono {D : List Lexeme → Prop} {ok : Prop} {xs : List Lexeme} (h : Decides D ok xs)
    {E : List Lexeme → Prop} {ys : List Lexeme} (hderives : D xs → E ys) (hxs : xs <:+: ys) :
    Decides E ok ys where
  derives hok := hderives (h.derives hok)
  guarded hguarded := h.guarded <| hguarded.infix hxs

/-- The lexemes are clauses, whatever clauses follow. -/
def AreClauses (xs : List Lexeme) : Prop :=
  ∃ clauses, ∀ ys others, IsClauses ys others → IsClauses (xs ++ ys) (clauses ++ others)

lemma areClauses_of_isClause {xs : List Lexeme} {clause : Clause} (h : IsClause xs clause) :
    AreClauses xs := ⟨[clause], fun _ _ hc => .cons h hc⟩

lemma areClauses_semicolon : AreClauses [.symbol .semicolon] := ⟨[], fun _ _ hc => .semicolon hc⟩

lemma AreClauses.append {xs ys : List Lexeme} (hx : AreClauses xs) (hy : AreClauses ys) :
    AreClauses (xs ++ ys) := by
  obtain ⟨as, ha⟩ := hx
  obtain ⟨bs, hb⟩ := hy
  refine ⟨as ++ bs, fun zs others hc => ?_⟩
  rw [List.append_assoc, List.append_assoc]
  exact ha _ _ (hb zs others hc)

lemma AreClauses.isClauses {xs : List Lexeme} (h : AreClauses xs) :
    ∃ clauses, IsClauses xs clauses := by
  obtain ⟨clauses, hc⟩ := h
  exact ⟨clauses, by simpa using hc [] [] .nil⟩

/-- The text reads as clauses if and only if `ok` holds. -/
def ScansClauses (text : String) (ok : Prop) : Prop :=
  ∃ xs, Scans text xs ∧ Decides AreClauses ok xs

lemma SpellsClauses.scansClauses {v : Vocabulary} {text : String} {clauses : List Clause}
    (h : SpellsClauses v text clauses) {ok : Prop} (hok : ok) : ScansClauses text ok := by
  obtain ⟨xs, hs, hc⟩ := h
  exact ⟨xs, hs.scans, fun _ => ⟨clauses, hc⟩, fun _ => hok⟩

lemma ScansClauses.congr {text : String} {a b : Prop} (h : ScansClauses text a) (hab : a ↔ b) :
    ScansClauses text b := propext hab ▸ h

lemma ScansClauses.append {s t : String} {a b : Prop} (hs : ScansClauses s a)
    (ht : ScansClauses t b) : ScansClauses (s ++ t) (a ∧ b) := by
  obtain ⟨xs, hx, hxs⟩ := hs
  obtain ⟨ys, hy, hys⟩ := ht
  refine ⟨xs ++ ys, hx.append hy, fun hok => ?_, fun hguarded => ?_⟩
  · exact (hxs.derives hok.1).append (hys.derives hok.2)
  · exact ⟨hxs.guarded hguarded.left_of_append, hys.guarded hguarded.right_of_append⟩

lemma ScansClauses.cons {text rest : String} {ok : Prop} {s : Statement} {ss : List Statement}
    (h : ScansClauses text ok) (hok : ok ↔ s.HasNoStray)
    (hrest : ScansClauses rest (∀ t ∈ ss, t.HasNoStray)) :
    ScansClauses (text ++ rest) (∀ t ∈ s :: ss, t.HasNoStray) := by
  rw [List.forall_mem_cons, ← hok]
  exact h.append hrest

/-! ### The lines of a container -/

section Lines

variable {p : Printer} (hp : p.IsReadable)

lemma scansWord_toDot {x : Ident} (h : x.IsAsciiName) :
    ∃ xs, IsIdent xs x.written ∧ ScansWord x.toDot xs := by
  obtain ⟨kind, hw, hid⟩ := h.isCanonical_written.isIdent
  exact ⟨_, hid, scansWord_of_isWord hw⟩

include hp

lemma ScansClauses.indented {text : String} {ok : Prop} (h : ScansClauses text ok)
    (depth : Nat) : ScansClauses (p.indentation depth ++ text ++ "\n") ok := by
  obtain ⟨xs, hs, hok⟩ := h
  refine ⟨xs, ?_, hok⟩
  have hblank := spells_blanks (indentation_blank hp.fits depth)
  have hnewline : Spells p.vocabulary "\n" [] := spells_newline
  simpa using (hblank.scans.append hs).append hnewline.scans

lemma ScansClauses.line {text : String} {ok : Prop} (h : ScansClauses text ok) (depth : Nat) :
    ScansClauses (p.line depth text) ok := by
  unfold Printer.line
  split
  · rename_i hempty
    rwa [String.isEmpty_iff.1 hempty] at h
  · exact h.indented hp depth

lemma scans_suffix {a : Attributes} (ha : a.AllIdents Ident.IsAsciiName) :
    ∃ ys, IsLists ys ((p.ordered a).map writtenItem) ∧ Delimits (p.attributeSuffix a ++ ";") ∧
      Scans (p.attributeSuffix a ++ ";") (ys ++ [.symbol .semicolon]) := by
  have hitems : ∀ e ∈ p.ordered a, e.1.IsAsciiName ∧ ∀ value ∈ e.2.ident?, value.IsAsciiName :=
    fun e he => ha e (Printer.mem_ordered he)
  obtain ⟨ys, hlists, hd, hy⟩ :=
    spells_suffix hp.fits (isCanonical_writtenItem hitems) (map_item_written hitems)
  exact ⟨ys, hlists, hd, hy.scans⟩

omit hp in
/-- A list behind a keyword is a clause if and only if the keyword takes it. -/
lemma decides_keyword {x : Lexeme} {k : Keyword} (hx : x.keyword? = some k) {ys : List Lexeme}
    {items : List Item} (h : IsLists ys items) (hne : items ≠ []) :
    Decides AreClauses (k.takesList = true) (x :: (ys ++ [.symbol .semicolon])) := by
  cases h with
  | nil => exact absurd rfl hne
  | cons hitems hothers =>
    have hlists := IsLists.cons hitems hothers
    constructor
    · intro hk
      suffices hclause : ∃ clause, IsClause (x :: _) clause from
        hclause.elim fun _ h => (areClauses_of_isClause h).append areClauses_semicolon
      cases k with
      | node => exact ⟨.defaults .node _, .defaults hx hlists (by simp)⟩
      | edge => exact ⟨.defaults .edge _, .defaults hx hlists (by simp)⟩
      | graph => exact ⟨_, .graph hx hlists (by simp)⟩
      | digraph | subgraph | strict => simp [Keyword.takesList] at hk
    · intro hguarded
      rw [List.cons_append, IsGuarded, List.isChain_cons_cons] at hguarded
      exact hguarded.1 rfl k hx

lemma scansClauses_node {n : Node} (hn : n.AllIdents Ident.IsAsciiName)
    (hanchor : n.anchor = none) : ScansClauses (p.node n) (¬ n.IsStray) := by
  obtain ⟨hname, -, ha⟩ := hn
  obtain ⟨ys, hlists, hd, hy⟩ := scans_suffix hp ha
  rw [Printer.node, hanchor]
  cases hk : Keyword.ofText? n.name.text with
  | none =>
    have hkey : n.name.isKeyword = false := by rw [Ident.isKeyword, hk]; rfl
    obtain ⟨xs, hid, hx⟩ := scansWord_toDot hname
    have hclause := areClauses_of_isClause (.node hid .none hlists)
    rw [hkey, if_neg Bool.false_ne_true, Printer.anchored, String.append_assoc]
    refine ⟨_, hx.append hd hy, fun _ => ?_, fun _ => ?_⟩
    · simpa using hclause.append areClauses_semicolon
    · rintro ⟨-, k, hkeyword, -⟩
      rw [hk] at hkeyword
      cases hkeyword
  | some k =>
    have hkey : n.name.isKeyword = true := by rw [Ident.isKeyword, hk]; rfl
    rw [hkey, if_pos rfl]
    cases hempty : n.attributes.isEmpty with
    | true =>
      rw [if_pos rfl]
      refine spellsClauses_empty (v := p.vocabulary).scansClauses ?_
      rintro ⟨hsome, -⟩
      rw [hempty] at hsome
      cases hsome
    | false =>
      have hne : (p.ordered n.attributes).map writtenItem ≠ [] := by
        simpa [Printer.ordered_eq_nil_iff] using hempty
      have hdecides := decides_keyword (x := .word .name n.name.text) hk hlists hne
      have htext := (scansWord_of_isWord hname.isWord).append hd hy
      rw [if_neg Bool.false_ne_true, Printer.anchored, String.append_assoc]
      refine ScansClauses.congr ⟨_, htext, hdecides⟩ ?_
      simp [Node.IsStray, hempty, hk]

lemma scansClauses_defaults {d : Defaults} (hd : d.attributes.AllIdents Ident.IsAsciiName) :
    ScansClauses (p.defaults d) True := by
  have hitems : ∀ e ∈ p.ordered d.attributes,
      e.1.IsAsciiName ∧ ∀ value ∈ e.2.ident?, value.IsAsciiName :=
    fun e he => hd e (Printer.mem_ordered he)
  exact (spellsClauses_defaults_items hp.fits (isCanonical_writtenItem hitems)
    (map_item_written hitems)).scansClauses trivial

lemma scansClauses_attributeLines {a : Attributes} (ha : a.AllIdents Ident.IsAsciiName)
    (depth : Nat) : ScansClauses (p.attributeLines depth a) True := by
  have hitems : ∀ e ∈ p.ordered a, e.1.IsAsciiName ∧ ∀ value ∈ e.2.ident?, value.IsAsciiName :=
    fun e he => ha e (Printer.mem_ordered he)
  exact (spellsClauses_items hp.fits (isCanonical_writtenItem hitems)
    (map_graphAttribute_written hitems) depth).scansClauses trivial

omit hp in
lemma scans_opening {name : Option Ident} (hn : ∀ x ∈ name, x.IsAsciiName) :
    ∃ xs, Scans (Printer.opening name) xs ∧ ∀ ys clauses, IsClauses ys clauses →
      IsBlock (xs ++ (ys ++ [.symbol .closeBrace])) ⟨name.map Ident.written, clauses⟩ := by
  have hwritten := Ident.isCanonical_map_written hn
  have hopening : Printer.opening (name.map Ident.written) = Printer.opening name := by
    cases name with
    | none => rfl
    | some x => rw [Option.map_some, Printer.opening, Printer.opening,
        (hn x rfl).isCanonical_written.toDot_eq, Ident.written]
  obtain ⟨xs, hx, hblock⟩ := spells_opening (v := Printer.vocabulary {}) hwritten
  exact ⟨xs, hopening ▸ hx.scans, hblock⟩

end Lines

section Body

variable {p : Printer} (kind : GraphKind)

mutual

lemma scansClauses_lines (hp : p.IsReadable) (depth : Nat) (earlier : List Edge) :
    (ss : List Statement) → (∀ s ∈ ss, s.AllIdents Ident.IsAsciiName) →
    (∀ s ∈ ss, s.IsUnanchored) → Statement.AllEverywhere Subgraph.IsPlain ss →
    ScansClauses (p.lines kind false depth earlier ss) (∀ s ∈ ss, s.HasNoStray)
  | [], _, _, _ =>
    spellsClauses_empty (v := p.vocabulary).scansClauses fun _ hs => nomatch hs
  | .node n :: ss, hs, ha, he => by
    rw [List.forall_mem_cons] at hs ha
    rw [Printer.lines]
    exact ((scansClauses_node hp hs.1 ha.1).line hp depth).cons Statement.hasNoStray_node
      (scansClauses_lines hp depth earlier ss hs.2 ha.2 he.2)
  | .defaults d :: ss, hs, ha, he => by
    rw [List.forall_mem_cons] at hs ha
    rw [Printer.lines]
    exact ((scansClauses_defaults hp hs.1).line hp depth).cons Statement.hasNoStray_defaults
      (scansClauses_lines hp depth earlier ss hs.2 ha.2 he.2)
  | .subgraph g :: ss, hs, ha, he => by
    rw [List.forall_mem_cons] at hs ha
    obtain ⟨xs, hx, hxs⟩ := scans_block hp (depth + 1) g he.1
    have hblock : ScansClauses (p.block kind false (depth + 1) g)
        (g.Everywhere Subgraph.HasNoStray) :=
      ⟨xs, hx, hxs.mono (fun ⟨block, hb⟩ => areClauses_of_isClause (.block hb))
        (List.infix_refl xs)⟩
    rw [Printer.lines]
    exact (hblock.line hp depth).cons Statement.hasNoStray_subgraph
      (scansClauses_lines hp depth earlier ss hs.2 ha.2 he.2)
  | .edge e :: ss, hs, ha, he => by
    rw [List.forall_mem_cons] at hs ha
    rw [Printer.lines, Bool.false_and, if_neg Bool.false_ne_true]
    exact ((scansClauses_edge hp e hs.1 ha.1 he.1).line hp depth).cons Statement.hasNoStray_edge
      (scansClauses_lines hp depth (e :: earlier) ss hs.2 ha.2 he.2)
termination_by structural ss => ss

lemma scansClauses_edge (hp : p.IsReadable) : (e : Edge) →
    (Statement.edge e).AllIdents Ident.IsAsciiName → (Statement.edge e).IsUnanchored →
    e.Everywhere Subgraph.IsPlain →
    ScansClauses (p.edge kind e) (e.Everywhere Subgraph.HasNoStray)
  | ⟨source, destination, attributes⟩, ⟨hs, hd, ha⟩, hu, he => by
    obtain ⟨o, ho, hop⟩ := spells_edgeOperator (v := p.vocabulary) kind
    obtain ⟨xs, hx, hxs⟩ := scans_endpoint hp source hs hu.1 he.1
    obtain ⟨ys, hy, hys⟩ := scans_endpoint hp destination hd hu.2 he.2
    obtain ⟨zs, hlists, hz, hzs⟩ := scans_suffix hp ha
    have hspace : Spells p.vocabulary " " [] := spells_space
    have htext := ((hx.append delimits_space hspace.scans).append hop.scans).append hspace.scans
    have hscans := (htext.append_word hy).append hz hzs
    rw [Printer.edge, String.append_assoc]
    refine ⟨xs ++ o :: (ys ++ (zs ++ [.symbol .semicolon])), by simpa using hscans, ?_, ?_⟩
    · rintro ⟨hsource, hdestination⟩
      obtain ⟨first, hfirst⟩ := hxs.derives hsource
      obtain ⟨second, hsecond⟩ := hys.derives hdestination
      have hclause := areClauses_of_isClause (.edges hfirst ho hsecond .nil hlists)
      simpa using hclause.append areClauses_semicolon
    · intro hguarded
      have hrest := List.isChain_of_isChain_cons hguarded.right_of_append
      exact ⟨hxs.guarded hguarded.left_of_append, hys.guarded hrest.left_of_append⟩
termination_by structural e => e

lemma scans_endpoint (hp : p.IsReadable) : (e : Endpoint) → e.AllIdents Ident.IsAsciiName →
    e.IsUnanchored → e.Everywhere Subgraph.IsPlain →
    ∃ xs, ScansWord (p.endpoint kind e) xs ∧
      Decides (fun xs => ∃ terminal, IsTerminal xs terminal)
        (e.Everywhere Subgraph.HasNoStray) xs
  | .node name anchor, hn, ha, _ => by
    obtain ⟨xs, hid, hx⟩ := scansWord_toDot hn.1
    cases ha
    rw [Printer.endpoint]
    refine ⟨xs, hx, fun _ => ⟨.node name.written none, ?_⟩, fun _ => trivial⟩
    simpa using IsTerminal.node hid .none
  | .subgraph g, _, _, he => by
    obtain ⟨xs, hx, hxs⟩ := scans_block hp 1 g he
    rw [Printer.endpoint]
    exact ⟨xs, hx.scansWord, hxs.mono (fun ⟨block, hblock⟩ => ⟨.block block, .block hblock⟩)
      (List.infix_refl xs)⟩
termination_by structural e => e

lemma scans_block (hp : p.IsReadable) (depth : Nat) : (g : Subgraph) →
    g.Everywhere Subgraph.IsPlain →
    ∃ xs, Scans (p.block kind false depth g) xs ∧
      Decides (fun xs => ∃ block, IsBlock xs block) (g.Everywhere Subgraph.HasNoStray) xs
  | ⟨name, attributes, statements⟩, he => by
    obtain ⟨hg, hss⟩ := he
    obtain ⟨xs, hx, hblock⟩ := scans_opening hg.name
    have hlines := scansClauses_lines hp depth [] statements hg.statements hg.unanchored hss
    obtain ⟨ys, hy, hys⟩ := (scansClauses_attributeLines hp hg.attributes depth).append hlines
    have hblank := spells_blanks (indentation_blank hp.fits (depth - 1))
    have hclose : Spells p.vocabulary "\x7d" [.symbol .closeBrace] := spells_closeBrace
    have hscans := ((hx.append hy).append hblank.scans).append hclose.scans
    rw [Printer.block]
    refine ⟨xs ++ (ys ++ [.symbol .closeBrace]), ?_, ?_⟩
    · simpa [String.append_assoc] using hscans
    · rw [Subgraph.everywhere_hasNoStray_iff, ← true_and (∀ s ∈ statements, s.HasNoStray)]
      refine hys.mono (fun hclauses => ?_) ⟨xs, [.symbol .closeBrace], by simp⟩
      obtain ⟨clauses, hc⟩ := hclauses.isClauses
      exact ⟨_, hblock ys clauses hc⟩
termination_by structural g => g

end

end Body

/-! ### Graphs -/

lemma nameText_written {name : Option Ident} (hn : ∀ x ∈ name, x.IsAsciiName) :
    nameText (name.map Ident.written) = nameText name := by
  cases name with
  | none => rfl
  | some x =>
    rw [Option.map_some, nameText, nameText, (hn x rfl).isCanonical_written.toDot_eq,
      Ident.written]

/-- In a source that was read, no list stands behind a keyword that takes none. -/
lemma isGuarded_of_parse {reader : Reader} {source : String} {parsed : Parsed}
    (h : reader.parse source = .ok parsed) {xs : List Lexeme}
    (hx : (Tokens.ofString source).map (fun tokens => lexemes tokens.list) = .ok xs) :
    IsGuarded xs := by
  obtain ⟨document, hdocument, -⟩ := Reader.parse_eq_ok_iff.1 h
  obtain ⟨tokens, ht, hderives, -⟩ := ofString_eq_ok_iff.1 hdocument
  rw [ht] at hx
  cases hx
  exact isGuarded_of_isDeclarations hderives

/-- A text that reads as one declaration where `ok` holds can be read exactly there. -/
lemma Scans.exists_parse_iff {text : String} {xs : List Lexeme} (h : Scans text xs) {ok : Prop}
    (hok : Decides (fun xs => ∃ d, IsDeclaration xs d) ok xs) (reader : Reader) :
    (∃ parsed, reader.parse text = .ok parsed) ↔ ok := by
  have hlexemes : (Tokens.ofString text).map (fun tokens => lexemes tokens.list) = .ok xs := by
    obtain ⟨tokens, ht, rfl⟩ := reads_of_front h {}
    rw [Tokens.ofString, ht]
    rfl
  constructor
  · rintro ⟨parsed, hparsed⟩
    exact hok.guarded (isGuarded_of_parse hparsed hlexemes)
  · intro hholds
    obtain ⟨d, hd⟩ := hok.derives hholds
    exact ⟨_, Reader.parse_of_lexemes hlexemes hd⟩

namespace Graph

/-- Names, attributes and values are plain and no anchor is set, at every depth. -/
def IsPlain (g : Graph) : Prop := g.body.Everywhere Subgraph.IsPlain

def HasNoStray (g : Graph) : Prop := g.body.Everywhere Subgraph.HasNoStray

variable {p : Printer} (hp : p.IsReadable) {g : Graph} (hg : g.IsPlain)

lemma IsPlain.simplified (hg : g.IsPlain) : g.simplified.IsPlain := by
  rw [Graph.simplified]
  split
  · exact Subgraph.Everywhere.simplified (fun _ h => h.simplified _) g.body hg
  · exact hg

/-- An edge that is left out repeats the blocks of an earlier one. -/
lemma hasNoStray_simplified_iff : g.simplified.HasNoStray ↔ g.HasNoStray := by
  have hnodes (body : Subgraph) :
      (body.simplified g.kind.isDirected).HasNoStray ↔ body.HasNoStray := by
    rw [Subgraph.HasNoStray, Subgraph.nodes_simplified]
    rfl
  rw [Graph.simplified]
  split
  · constructor
    · intro h
      exact Subgraph.Everywhere.of_simplified (fun body => (hnodes body).1) g.body h
    · intro h
      exact Subgraph.Everywhere.simplified (fun body => (hnodes body).2) g.body h
  · rfl

include hp hg

lemma scans_graph (hs : g.simplify = false) : ∃ xs, Scans (p.graph g) xs ∧
    Decides (fun xs => ∃ d, IsDeclaration xs d) g.HasNoStray xs := by
  obtain ⟨kind, strict, simplify, name, attributes, statements⟩ := g
  obtain ⟨hbody, hss⟩ := hg
  have hheader : Printer.header ⟨kind, strict, simplify, name.map Ident.written, attributes,
      statements⟩ = Printer.header ⟨kind, strict, simplify, name, attributes, statements⟩ := by
    simp only [header_eq, Graph.name, nameText_written hbody.name]
  obtain ⟨xs, hx, hdeclaration⟩ := spells_header (v := p.vocabulary)
    (g := ⟨kind, strict, simplify, name.map Ident.written, attributes, statements⟩)
    (Ident.isCanonical_map_written hbody.name)
  have hlines := scansClauses_lines kind hp 1 [] statements hbody.statements hbody.unanchored hss
  obtain ⟨ys, hy, hys⟩ := (scansClauses_attributeLines hp hbody.attributes 1).append hlines
  have hclose : Spells p.vocabulary ("\x7d" ++ "\n") ([.symbol .closeBrace] ++ []) :=
    spells_closeBrace.append spells_newline
  rw [graph_eq, hs]
  refine ⟨xs ++ (ys ++ [.symbol .closeBrace]), ?_, ?_⟩
  · simpa [hheader] using hx.scans.append (hy.append hclose.scans)
  · rw [HasNoStray, Subgraph.everywhere_hasNoStray_iff,
      ← true_and (∀ s ∈ statements, s.HasNoStray)]
    refine hys.mono (fun hclauses => ?_) ⟨xs, [.symbol .closeBrace], by simp⟩
    obtain ⟨clauses, hc⟩ := hclauses.isClauses
    exact ⟨_, hdeclaration ys clauses hc⟩

/-- A plain graph can be read back from its text, simplified or not, if and only if no node with
attributes is named by a keyword that takes no list. -/
theorem exists_parse_graph_iff (reader : Reader) :
    (∃ parsed, reader.parse (p.graph g) = .ok parsed) ↔ g.HasNoStray := by
  obtain ⟨xs, hscans, hdecides⟩ := scans_graph hp hg.simplified g.simplify_simplified
  rw [Printer.graph_simplified] at hscans
  rw [hscans.exists_parse_iff hdecides reader, hasNoStray_simplified_iff]

omit hp hg

/-- Names, attributes and values that are keywords, and an edge that is written twice. -/
def reserved : Graph where
  kind := .digraph
  strict := true
  simplify := true
  body := ⟨some ⟨"strict"⟩, .ofList [(⟨"graph"⟩, .text ⟨"edge"⟩)],
    [.node ⟨⟨"Node"⟩, none, .ofList [(⟨"a"⟩, .implicit)]⟩, .node ⟨⟨"digraph"⟩, none, .empty⟩,
      .edge ⟨.node ⟨"subgraph"⟩ none, .subgraph (.empty (some ⟨"node"⟩)), .empty⟩,
      .edge ⟨.node ⟨"subgraph"⟩ none, .subgraph (.empty (some ⟨"node"⟩)), .empty⟩]⟩

theorem exists_parse_graph_iff_reserved :
    Printer.IsReadable {} ∧ reserved.IsPlain ∧ reserved.HasNoStray ∧
      ∃ parsed, Reader.parse {} (({} : Printer).graph reserved) = .ok parsed := by
  have hname {text : String} (h : Ident.IsAsciiName ⟨text⟩) :
      ∀ x ∈ some (⟨text⟩ : Ident), x.IsAsciiName := by
    simpa using h
  have hempty : Attributes.AllIdents Ident.IsAsciiName .empty := Attributes.allIdents_empty
  have hblock : (Subgraph.empty (some ⟨"node"⟩)).Everywhere Subgraph.IsPlain := by
    refine Subgraph.everywhere_iff.2 ⟨⟨hname (by decide +kernel), hempty, ?_, ?_⟩, ?_⟩ <;>
      exact fun _ hs => nomatch hs
  have hbody : reserved.body.IsPlain := by
    refine ⟨hname (by decide +kernel), by decide +kernel, ?_, ?_⟩
    · simp only [reserved, List.forall_mem_cons]
      exact ⟨⟨by decide +kernel, by simp, by decide +kernel⟩, ⟨by decide +kernel, by simp, hempty⟩,
        ⟨⟨by decide +kernel, by simp⟩, trivial, hempty⟩,
        ⟨⟨by decide +kernel, by simp⟩, trivial, hempty⟩, by simp⟩
    · simp [reserved, Statement.IsUnanchored, Endpoint.IsUnanchored]
  have hplain : reserved.IsPlain := by
    refine Subgraph.everywhere_iff.2 ⟨hbody, ?_⟩
    simp only [reserved, List.forall_mem_cons]
    exact ⟨trivial, trivial, ⟨trivial, hblock⟩, ⟨trivial, hblock⟩, by simp⟩
  have hinner : (Subgraph.empty (some ⟨"node"⟩)).Everywhere Subgraph.HasNoStray :=
    Subgraph.everywhere_hasNoStray_iff.2 fun _ hs => nomatch hs
  have hstray : reserved.HasNoStray := by
    apply Subgraph.everywhere_hasNoStray_iff.2
    simp only [reserved, List.forall_mem_cons, ← Statement.hasNoStray_node,
      ← Statement.hasNoStray_edge]
    exact ⟨by decide +kernel, by decide +kernel, ⟨trivial, hinner⟩, ⟨trivial, hinner⟩, by simp⟩
  exact ⟨Printer.isReadable_default, hplain, hstray,
    (exists_parse_graph_iff Printer.isReadable_default hplain {}).2 hstray⟩

/-- A node that is named by a keyword without lists, with an attribute. -/
def strayed : Graph where
  kind := .graph
  body := ⟨some defaultName, .empty,
    [.node ⟨⟨"digraph"⟩, none, .ofList [(⟨"a"⟩, .text ⟨"b"⟩)]⟩]⟩

/-- The keyword is written without quotes and with the list behind it. -/
theorem not_exists_parse_strayed : strayed.IsPlain ∧
    strayed.text = "graph G \x7b\ndigraph [a=b];\n\x7d\n" ∧
    ¬ ∃ parsed, Reader.parse {} strayed.text = .ok parsed := by
  refine ⟨?_, by decide +kernel, ?_⟩
  · refine Subgraph.everywhere_iff.2 ⟨⟨?_, Attributes.allIdents_empty, ?_, ?_⟩, ?_⟩
    · simp only [strayed, Option.mem_some_iff, forall_eq']
      decide +kernel
    · simp only [strayed, List.forall_mem_singleton]
      exact ⟨by decide +kernel, by simp, by decide +kernel⟩
    · simp [strayed, Statement.IsUnanchored]
    · simp [strayed, Statement.Everywhere]
  · rintro ⟨parsed, hparsed⟩
    have hguarded : IsGuarded [.word .name "graph", .word .name "G", .symbol .openBrace,
        .word .name "digraph", .symbol .openBracket, .word .name "a", .symbol .equals,
        .word .name "b", .symbol .closeBracket, .symbol .semicolon, .symbol .closeBrace] :=
      isGuarded_of_parse hparsed (by decide +kernel)
    exact absurd hguarded (by decide +kernel)

end Graph

end DotGraph
