import DotGraph.Proofs.DocumentBlocks
import DotGraph.Proofs.MergedEdges
import DotGraph.Proofs.RoundTrip
import DotGraph.Proofs.StrictEdges
import Mathlib.Data.List.Basic

/-!
# Drawn edges

The edges that the clauses of a block draw, before any of them are merged. Each has the defaults
that are in force and the attributes that its clause lists. In a strict graph an edge holds what
was drawn between its endpoints, merged in order, so the value of a name is the one that was drawn
last. This may be a default: a value that was listed is kept exactly when no default for the name
comes behind it, or the last one that does is the same.
-/

namespace DotGraph

/-- An edge as it is drawn, with the attributes that it inherits and those that its clause
lists. -/
structure Drawn where
  source : Endpoint
  destination : Endpoint
  inherited : Attributes
  explicit : Attributes

namespace Drawn

def edge (d : Drawn) : Edge := ⟨d.source, d.destination, d.inherited.merge d.explicit⟩

/-- One edge from each endpoint to the next. -/
def chain (inherited explicit : Attributes) : List Endpoint → List Drawn
  | source :: destination :: others =>
    ⟨source, destination, inherited, explicit⟩ :: chain inherited explicit (destination :: others)
  | _ => []

/-- The attributes of edges that are merged in this order. -/
def collected (ds : List Drawn) : Attributes :=
  ds.foldl (fun a d => a.merge d.edge.attributes) .empty

/-- The default for a name that one of the edges inherits, the last one if there are several. -/
def lastInherited? (name : Ident) (ds : List Drawn) : Option AttrValue :=
  (ds.filterMap fun d => d.inherited.get? name).getLast?

end Drawn

def Clause.drawn (rules : Rules) (scope : Scope) : Clause → List Drawn
  | .edges first second others items =>
    Drawn.chain (rules.inherited scope.edge) (.ofItems items)
      (first.endpoint rules scope :: second.endpoint rules scope ::
        Terminal.endpoints rules scope others)
  | _ => []

def Clause.allDrawn (rules : Rules) (scope : Scope) : List Clause → List Drawn
  | [] => []
  | c :: cs => c.drawn rules scope ++ Clause.allDrawn rules (scope.past c) cs

/-- The edges that are drawn in a block itself, in their order. -/
def Block.drawn (rules : Rules) (scope : Scope) (b : Block) : List Drawn :=
  Clause.allDrawn rules scope b.clauses

/-- The drawn edges that make up an edge of the container: those between its endpoints. -/
def Edge.parts (directed : Bool) (ds : List Drawn) (e : Edge) : List Drawn :=
  ds.filter fun d => e.sameEndpoints directed d.edge

/-! ### Edges that are merged -/

/-- The container has one edge for all drawn edges between the same endpoints, which holds what
they hold. -/
structure Subgraph.Collects (directed : Bool) (ds : List Drawn) (g : Subgraph) : Prop where
  distinct : g.HasDistinctEdges directed
  attributes : ∀ e ∈ g.edges, e.attributes = Drawn.collected (e.parts directed ds)
  found : ∀ d ∈ ds, ∃ e ∈ g.edges, e.sameEndpoints directed d.edge = true

section Parts

variable {directed : Bool} {ds : List Drawn} {d : Drawn} {e : Edge}

lemma Drawn.collected_concat (ds : List Drawn) (d : Drawn) :
    collected (ds ++ [d]) = (collected ds).merge d.edge.attributes := by
  rw [collected, List.foldl_append]
  rfl

lemma Edge.parts_concat_of_same (h : e.sameEndpoints directed d.edge = true) :
    e.parts directed (ds ++ [d]) = e.parts directed ds ++ [d] := by
  rw [parts, List.filter_append, List.filter_singleton, h, cond_true, parts]

lemma Edge.parts_concat_of_other (h : e.sameEndpoints directed d.edge = false) :
    e.parts directed (ds ++ [d]) = e.parts directed ds := by
  rw [parts, List.filter_append, List.filter_singleton, h, cond_false, List.append_nil, parts]

end Parts

lemma Subgraph.mem_edges_around {g : Subgraph} {as bs : List Statement} {e f : Edge}
    (hg : g.statements = as ++ .edge f :: bs) : e ∈ g.edges ↔ e = f ∨ .edge e ∈ as ++ bs := by
  rw [mem_edges, hg]
  simp [or_left_comm]

namespace Subgraph.Collects

variable {directed : Bool} {ds : List Drawn} {g : Subgraph}

lemma empty (name : Option Ident) : (Subgraph.empty name).Collects directed [] where
  distinct := List.Pairwise.nil
  attributes _ he := nomatch he
  found _ hd := nomatch hd

/-- Only the edges of a container matter. -/
lemma of_edges (h : g.Collects directed ds) {made : Subgraph} (he : made.edges = g.edges) :
    made.Collects directed ds where
  distinct := by
    rw [HasDistinctEdges, he]
    exact h.distinct
  attributes := by
    rw [he]
    exact h.attributes
  found := by
    rw [he]
    exact h.found

/-- An edge between new endpoints is a part of no edge that was there. -/
lemma parts_eq_nil (h : g.Collects directed ds) {d : Drawn}
    (hnew : ∀ f ∈ g.edges, f.sameEndpoints directed d.edge = false) :
    d.edge.parts directed ds = [] := by
  have hequiv := Edge.equivalence_sameEndpoints directed
  rw [Edge.parts, List.filter_eq_nil_iff]
  intro x hx hsame
  obtain ⟨f, hf, hfx⟩ := h.found x hx
  have hmeets := hequiv.trans hfx (hequiv.symm hsame)
  rw [hnew f hf] at hmeets
  cases hmeets

/-- A drawn edge becomes one more part of the edge that it meets. -/
lemma merged (h : g.Collects directed ds) {d : Drawn} {as bs : List Statement} {f : Edge}
    (hg : g.statements = as ++ .edge f :: bs) (hsame : f.sameEndpoints directed d.edge = true) :
    Collects directed (ds ++ [d]) { g with
      statements :=
        as ++ .edge { f with attributes := f.attributes.merge d.edge.attributes } :: bs } := by
  let made : Subgraph := { g with
    statements := as ++ .edge { f with attributes := f.attributes.merge d.edge.attributes } :: bs }
  have hmade : made.statements = _ := rfl
  refine ⟨h.distinct.replace hg rfl, fun e he => ?_, fun x hx => ?_⟩
  · rcases (mem_edges_around hmade).1 he with heq | hmem
    · subst heq
      have hf := h.attributes f ((mem_edges_around hg).2 (.inl rfl))
      calc f.attributes.merge d.edge.attributes
        _ = Drawn.collected (f.parts directed ds ++ [d]) := by rw [hf, Drawn.collected_concat]
        _ = Drawn.collected (f.parts directed (ds ++ [d])) := by
          rw [Edge.parts_concat_of_same hsame]
    · -- the other edges join other endpoints than the one that is met
      have hother : e.sameEndpoints directed d.edge = false := by
        rw [Edge.sameEndpoints_congr hsame]
        exact h.distinct.other hg hmem
      rw [Edge.parts_concat_of_other hother]
      exact h.attributes e ((mem_edges_around hg).2 (.inr hmem))
  · rcases List.mem_append.1 hx with hx | hx
    · obtain ⟨e, he, hex⟩ := h.found x hx
      rcases (mem_edges_around hg).1 he with heq | hmem
      · subst heq
        exact ⟨_, (mem_edges_around hmade).2 (.inl rfl), hex⟩
      · exact ⟨e, (mem_edges_around hmade).2 (.inr hmem), hex⟩
    · rw [List.mem_singleton.1 hx]
      exact ⟨_, (mem_edges_around hmade).2 (.inl rfl), hsame⟩

/-- A drawn edge that meets none is appended, and has no other part. -/
lemma added (h : g.Collects directed ds) {d : Drawn}
    (hnew : ∀ f ∈ g.edges, f.sameEndpoints directed d.edge = false) :
    (g.addEdge d.edge).Collects directed (ds ++ [d]) where
  distinct := by
    apply h.distinct.push
    rintro e ⟨⟩ f hf
    exact hnew f hf
  attributes e he := by
    rw [addEdge, edges_push, List.mem_append] at he
    rcases he with he | he
    · rw [Edge.parts_concat_of_other (hnew e he)]
      exact h.attributes e he
    · obtain rfl : e = d.edge := List.mem_singleton.1 he
      have hself := (Edge.equivalence_sameEndpoints directed).refl d.edge
      rw [Edge.parts_concat_of_same hself, h.parts_eq_nil hnew]
      exact (Attributes.empty_merge _).symm
  found x hx := by
    rw [addEdge, edges_push]
    rcases List.mem_append.1 hx with hx | hx
    · obtain ⟨e, he, hex⟩ := h.found x hx
      exact ⟨e, List.mem_append_left _ he, hex⟩
    · rw [List.mem_singleton.1 hx]
      exact ⟨d.edge, List.mem_append_right _ List.mem_cons_self,
        (Edge.equivalence_sameEndpoints directed).refl d.edge⟩

theorem mergeEdge (h : g.Collects directed ds) (d : Drawn) :
    (g.mergeEdge directed d.edge).Collects directed (ds ++ [d]) := by
  rcases g.mergeEdge_cases directed d.edge with ⟨as, f, bs, hg, hsame, heq⟩ | ⟨hnew, heq⟩
  · rw [heq]
    exact h.merged hg hsame
  · rw [heq]
    exact h.added hnew

end Subgraph.Collects

/-! ### Clauses of a strict graph -/

section Clauses

variable {rules : Rules}

lemma Subgraph.Collects.connectAll (hs : rules.strict = true) (inherited explicit : Attributes)
    {ends : List Endpoint} {ds : List Drawn} {g : Subgraph} (h : g.Collects rules.directed ds) :
    (g.connectAll rules (inherited.merge explicit) ends).Collects rules.directed
      (ds ++ Drawn.chain inherited explicit ends) := by
  induction ends generalizing ds g with
  | nil => exact (List.append_nil ds).symm ▸ h
  | cons source ends ih =>
    cases ends with
    | nil => exact (List.append_nil ds).symm ▸ h
    | cons destination ends =>
      let d : Drawn := ⟨source, destination, inherited, explicit⟩
      have hconnect : g.connect rules d.edge = g.mergeEdge rules.directed d.edge := by
        rw [Subgraph.connect, if_pos hs]
      have hfirst := h.mergeEdge d
      rw [← hconnect] at hfirst
      rw [Subgraph.connectAll, Drawn.chain, List.append_cons]
      exact ih hfirst

/-- One clause adds what it draws. -/
theorem collects_apply (hs : rules.strict = true) (scope : Scope) {ds : List Drawn} {g : Subgraph}
    (h : g.Collects rules.directed ds) (c : Clause) :
    (c.apply rules scope g).2.Collects rules.directed (ds ++ c.drawn rules scope) := by
  have hpush {s : Statement} (he : s.edge? = none) : (g.push s).edges = g.edges := by
    rw [Subgraph.edges_push, he]
    exact List.append_nil _
  cases c with
  | edges first second others items =>
    exact .connectAll hs (rules.inherited scope.edge) (.ofItems items) h
  | node name anchor items =>
    exact (List.append_nil ds).symm ▸ h.of_edges (Subgraph.edges_declareNode g name anchor _ _)
  | defaults | block => exact (List.append_nil ds).symm ▸ h.of_edges (hpush rfl)
  | graph | assign => exact (List.append_nil ds).symm ▸ h.of_edges rfl

theorem collects_applyAll (hs : rules.strict = true) (cs : List Clause) (scope : Scope)
    {ds : List Drawn} {g : Subgraph} (h : g.Collects rules.directed ds) :
    (Clause.applyAll rules scope g cs).Collects rules.directed
      (ds ++ Clause.allDrawn rules scope cs) := by
  induction cs generalizing scope ds g with
  | nil =>
    rw [Clause.allDrawn, List.append_nil]
    exact h
  | cons c cs ih =>
    rw [Clause.applyAll_cons, Clause.allDrawn, ← List.append_assoc]
    exact ih (scope.past c) (collects_apply hs scope h c)

/-- The container of a block in a strict graph collects what is drawn in the block. -/
theorem collects_subgraph (hs : rules.strict = true) (scope : Scope) (b : Block) :
    (b.subgraph rules scope).Collects rules.directed (b.drawn rules scope) := by
  obtain ⟨name, clauses⟩ := b
  exact collects_applyAll hs clauses scope (.empty name)

end Clauses

/-! ### The value of a name -/

namespace Drawn

lemma get?_edge (d : Drawn) (name : Ident) :
    d.edge.attributes.get? name = (d.explicit.get? name).or (d.inherited.get? name) :=
  Attributes.get?_merge d.inherited d.explicit name

lemma get?_foldl_merge (ds : List Drawn) (a : Attributes) (name : Ident) :
    (ds.foldl (fun a d => a.merge d.edge.attributes) a).get? name =
      (ds.filterMap fun d => d.edge.attributes.get? name).getLast?.or (a.get? name) := by
  induction ds generalizing a with
  | nil => rfl
  | cons d ds ih =>
    rw [List.foldl_cons, ih, Attributes.get?_merge]
    cases hd : d.edge.attributes.get? name with
    | none => simp [hd]
    | some v => cases hl : (ds.filterMap fun d => d.edge.attributes.get? name).getLast? <;>
        simp [hd, hl, List.getLast?_cons]

/-- Behind the last value that was listed for a name, only a default can take its place. -/
lemma get?_collected {as bs : List Drawn} {d : Drawn} {name : Ident} {v : AttrValue}
    (hd : d.explicit.get? name = some v) (hlast : ∀ b ∈ bs, b.explicit.get? name = none) :
    (collected (as ++ d :: bs)).get? name = (lastInherited? name bs).or (some v) := by
  have hbs : bs.filterMap (fun b => b.edge.attributes.get? name) =
      bs.filterMap fun b => b.inherited.get? name := by
    refine List.filterMap_congr ?_
    intro b hb
    rw [get?_edge, hlast b hb, Option.none_or]
  have hfirst : d.edge.attributes.get? name = some v := by
    rw [get?_edge, hd, Option.some_or]
  have hall : (as ++ d :: bs).filterMap (fun x => x.edge.attributes.get? name) =
      as.filterMap (fun x => x.edge.attributes.get? name) ++
        v :: bs.filterMap fun b => b.inherited.get? name := by
    rw [List.filterMap_append, List.filterMap_cons, hfirst, hbs]
  rw [collected, get?_foldl_merge, hall, List.getLast?_append, List.getLast?_cons,
    Option.some_or, Option.some_or, lastInherited?]
  cases (bs.filterMap fun b => b.inherited.get? name).getLast? <;> rfl

end Drawn

/-- A value that is listed last for a name is kept exactly when no default for the name comes
behind it, or the last one that does is the same. -/
lemma Subgraph.Collects.get?_eq_some_iff {directed : Bool} {ds as bs : List Drawn} {d : Drawn}
    {g : Subgraph} (h : g.Collects directed ds) {e : Edge} (he : e ∈ g.edges)
    (hparts : e.parts directed ds = as ++ d :: bs) {name : Ident} {v : AttrValue}
    (hd : d.explicit.get? name = some v) (hlast : ∀ b ∈ bs, b.explicit.get? name = none) :
    e.attributes.get? name = some v ↔ ∀ w ∈ Drawn.lastInherited? name bs, w = v := by
  rw [h.attributes e he, hparts, Drawn.get?_collected hd hlast]
  cases Drawn.lastInherited? name bs with
  | none => simp
  | some w => simp

namespace Reader

/-- Every container of a strict graph is read from a block, and there an edge holds the value that
was listed last for a name exactly when no default for the name was drawn between its endpoints
behind that value, or the last one that was is the same. -/
theorem get?_listed_iff {reader : Reader} {source : String} {parsed : Parsed}
    (h : reader.parse source = .ok parsed) :
    ∃ document, Document.ofString source = .ok document ∧
      parsed = .ofList (document.map (Declaration.toGraph reader.inheritDefaults)) ∧
      ∀ d ∈ document, d.strict = true →
        ((d.toGraph reader.inheritDefaults).body.Everywhere fun g =>
          ∃ q ∈ d.blocks, g = q.2.subgraph (d.rules reader.inheritDefaults) q.1) ∧
        ∀ q ∈ d.blocks, ∀ e ∈ (q.2.subgraph (d.rules reader.inheritDefaults) q.1).edges,
          ∀ as x bs, e.parts d.kind.isDirected
              (q.2.drawn (d.rules reader.inheritDefaults) q.1) = as ++ x :: bs →
            ∀ name v, x.explicit.get? name = some v →
              (∀ b ∈ bs, b.explicit.get? name = none) →
                (e.attributes.get? name = some v ↔ ∀ w ∈ Drawn.lastInherited? name bs, w = v) := by
  obtain ⟨document, hdoc, hparsed⟩ := parse_eq_ok_iff.1 h
  refine ⟨document, hdoc, hparsed, fun d _ hs => ?_⟩
  refine ⟨d.everywhere_exists_block reader.inheritDefaults, ?_⟩
  intro q _ e he as x bs hparts name v hx hlast
  have hcollects := @collects_subgraph (d.rules reader.inheritDefaults) hs q.1 q.2
  exact hcollects.get?_eq_some_iff he hparts hx hlast

/-! ### An edge that is drawn again -/

open Grammar

/-- An edge that is listed with a value and drawn again with a default. -/
def redrawn (default : Ident) : Declaration where
  strict := true
  kind := .digraph
  name := none
  clauses :=
    [.edges (.node ⟨"a"⟩ none) (.node ⟨"b"⟩ none) [] [(⟨"k"⟩, .text ⟨"x"⟩)],
      .defaults .edge [(⟨"k"⟩, .text default)],
      .edges (.node ⟨"a"⟩ none) (.node ⟨"b"⟩ none) [] []]

lemma isDeclaration_redrawn {text : String} (h : Keyword.ofText? text = none) :
    IsDeclaration
      [.word .name "strict", .word .name "digraph", .symbol .openBrace,
        .word .name "a", .symbol .arrow, .word .name "b",
        .symbol .openBracket, .word .name "k", .symbol .equals, .word .name "x",
        .symbol .closeBracket, .symbol .semicolon,
        .word .name "edge",
        .symbol .openBracket, .word .name "k", .symbol .equals, .word .name text,
        .symbol .closeBracket, .symbol .semicolon,
        .word .name "a", .symbol .arrow, .word .name "b", .symbol .closeBrace]
      (redrawn ⟨text⟩) := by
  have ha : IsIdent [.word .name "a"] ⟨"a"⟩ := .name (by decide +kernel)
  have hb : IsIdent [.word .name "b"] ⟨"b"⟩ := .name (by decide +kernel)
  have hk : IsIdent [.word .name "k"] ⟨"k"⟩ := .name (by decide +kernel)
  have hx : IsIdent [.word .name "x"] ⟨"x"⟩ := .name (by decide +kernel)
  have hlisted := (IsItem.text hk hx).lists
  have hdefault := (IsItem.text hk (.name h)).lists
  have hfirst := IsClause.edges (.node ha .none) .arrow (.node hb .none) .nil hlisted
  have hedge : IsClause (.word .name "edge" :: _) (.defaults .edge _) :=
    .defaults rfl hdefault (List.cons_ne_nil _ _)
  have hagain := IsClause.edges (.node ha .none) .arrow (.node hb .none) .nil .nil
  exact .intro (.present rfl) (keyword?_text .digraph) .none
    (.cons hfirst (.semicolon (.cons hedge (.semicolon (.cons hagain .nil)))))

/-- The edge as its first clause draws it. -/
def listed : Drawn :=
  ⟨.node ⟨"a"⟩ none, .node ⟨"b"⟩ none, .empty, .ofList [(⟨"k"⟩, .text ⟨"x"⟩)]⟩

/-- The edge as its second clause draws it. -/
def defaulted (default : Ident) : Drawn :=
  ⟨.node ⟨"a"⟩ none, .node ⟨"b"⟩ none, .ofList [(⟨"k"⟩, .text default)], .empty⟩

/-- A default that comes behind the listed value may be the same. -/
theorem get?_listed_iff_redrawn :
    ∃ parsed, Reader.parse ⟨true⟩ "strict digraph\x7ba->b[k=x];edge[k=x];a->b\x7d" = .ok parsed ∧
      ∃ document,
        Document.ofString "strict digraph\x7ba->b[k=x];edge[k=x];a->b\x7d" = .ok document ∧
        ∃ d ∈ document, d.strict = true ∧ ∃ q ∈ d.blocks,
          ∃ e ∈ (q.2.subgraph (d.rules true) q.1).edges,
            e.parts d.kind.isDirected (q.2.drawn (d.rules true) q.1) =
                [] ++ listed :: [defaulted ⟨"x"⟩] ∧
              e.attributes.get? ⟨"k"⟩ = some (.text ⟨"x"⟩) := by
  have hx : Keyword.ofText? "x" = none := by decide +kernel
  have hdoc : Document.ofString "strict digraph\x7ba->b[k=x];edge[k=x];a->b\x7d" =
      .ok [redrawn ⟨"x"⟩] :=
    ofString_of_lexemes (by decide +kernel)
      ⟨.cons (isDeclaration_redrawn hx) .nil, List.cons_ne_nil _ _⟩
  have hread : Reader.parse ⟨true⟩ "strict digraph\x7ba->b[k=x];edge[k=x];a->b\x7d" = .ok _ :=
    parse_eq_ok_iff.2 ⟨_, hdoc, rfl⟩
  obtain ⟨document, hdocument, -, hlisted⟩ := get?_listed_iff hread
  obtain rfl : document = [redrawn ⟨"x"⟩] := Except.ok.inj (hdocument.symm.trans hdoc)
  have hkept := (hlisted _ List.mem_cons_self rfl).2 _ List.mem_cons_self _ List.mem_cons_self
    [] listed [defaulted ⟨"x"⟩] rfl ⟨"k"⟩ (.text ⟨"x"⟩) (by decide +kernel) (by decide +kernel)
  exact ⟨_, hread, _, hdoc, _, List.mem_cons_self, rfl, _, List.mem_cons_self, _,
    List.mem_cons_self, rfl, hkept.2 (by decide +kernel)⟩

/-- The value is listed for the edge, and no other value is, but the edge holds the default. -/
theorem get?_redrawn_ne_listed :
    Document.ofString "strict digraph\x7ba->b[k=x];edge[k=y];a->b\x7d" = .ok [redrawn ⟨"y"⟩] ∧
      Reader.parse ⟨true⟩ "strict digraph\x7ba->b[k=x];edge[k=y];a->b\x7d" =
        .ok (.single ((redrawn ⟨"y"⟩).toGraph true)) ∧
      ∃ e ∈ ((redrawn ⟨"y"⟩).toGraph true).body.edges,
        e.parts true ((redrawn ⟨"y"⟩).block.drawn ((redrawn ⟨"y"⟩).rules true) {}) =
            [listed, defaulted ⟨"y"⟩] ∧
          listed.explicit.get? ⟨"k"⟩ = some (.text ⟨"x"⟩) ∧
          (defaulted ⟨"y"⟩).explicit.get? ⟨"k"⟩ = none ∧
          e.attributes.get? ⟨"k"⟩ ≠ some (.text ⟨"x"⟩) := by
  have hy : Keyword.ofText? "y" = none := by decide +kernel
  have hdoc : Document.ofString "strict digraph\x7ba->b[k=x];edge[k=y];a->b\x7d" =
      .ok [redrawn ⟨"y"⟩] :=
    ofString_of_lexemes (by decide +kernel)
      ⟨.cons (isDeclaration_redrawn hy) .nil, List.cons_ne_nil _ _⟩
  refine ⟨hdoc, parse_eq_ok_iff.2 ⟨_, hdoc, rfl⟩, ?_⟩
  exact ⟨_, List.mem_cons_self, rfl, by decide +kernel, by decide +kernel, by decide +kernel⟩

end Reader

end DotGraph
