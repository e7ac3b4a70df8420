import DotGraph.Proofs.RoundTrip

/-!
# Notation

What a document says does not depend on how it is put down. Separators may be left out, either
edge operator may stand for the other, and keywords may be in any case. The normal form of lexemes
sets all three aside. A sequence that derives a tree derives it in normal form too, since nothing
that may follow a clause, an item or a graph can be taken for a part of it.
-/

namespace DotGraph

open Grammar

/-- The lexeme in normal form. Separators have none. -/
def Lexeme.normal? : Lexeme → Option Lexeme
  | .symbol .semicolon => none
  | .symbol .comma => none
  | .symbol .line => some (.symbol .arrow)
  | .word .name text =>
    some (.word .name (if (Keyword.ofText? text).isSome then Text.lower text else text))
  | x => some x

def normalForm (xs : List Lexeme) : List Lexeme := xs.filterMap Lexeme.normal?

/-- The tokens in normal form. Those that are left keep their positions. -/
def Tokens.normal (tokens : Tokens) : Tokens where
  list := tokens.list.filterMap fun token => token.lexeme.normal?.map ({ token with lexeme := · })
  stop := tokens.stop

lemma lexemes_normal (tokens : Tokens) :
    lexemes tokens.normal.list = normalForm (lexemes tokens.list) := by
  rw [lexemes, Tokens.normal, List.map_filterMap, normalForm, lexemes, List.filterMap_map]
  congr 1
  funext token
  rw [Option.map_map]
  exact Option.map_id'

lemma normalForm_append (xs ys : List Lexeme) :
    normalForm (xs ++ ys) = normalForm xs ++ normalForm ys :=
  List.filterMap_append

lemma Keyword.lower_of_ofText? {text : String} {k : Keyword} (h : Keyword.ofText? text = some k) :
    Text.lower text = k.text := by
  have hfound := List.find?_some h
  exact (of_decide_eq_true hfound).symm

/-! ### Derivations in normal form -/

namespace Grammar

/-- A keyword stays the keyword that it is. -/
lemma normalForm_keyword {x : Lexeme} {k : Keyword} (h : x.keyword? = some k)
    (xs : List Lexeme) :
    ∃ y : Lexeme, y.keyword? = some k ∧ normalForm (x :: xs) = y :: normalForm xs := by
  cases x with
  | symbol s => simp [Lexeme.keyword?] at h
  | word kind text =>
    cases kind with
    | numeral | quoted | html => simp [Lexeme.keyword?] at h
    | name =>
      have htext : Keyword.ofText? text = some k := h
      have hlower := Keyword.lower_of_ofText? htext
      refine ⟨.word .name k.text, keyword?_text k, ?_⟩
      simp [normalForm, Lexeme.normal?, htext, hlower]

lemma normalForm_operator {o : Lexeme} (h : IsEdgeOperator o) (xs : List Lexeme) :
    normalForm (o :: xs) = .symbol .arrow :: normalForm xs := by
  cases h <;> rfl

/-! Identifiers, anchors and items are in normal form already. -/

lemma normalForm_concatenation {a b : String} {xs : List Lexeme} (h : IsConcatenation a xs b) :
    normalForm xs = xs := by
  induction h with
  | nil => rfl
  | @cons a b c xs _ ih =>
    have hstep : normalForm (.symbol .plus :: .word .quoted b :: xs) =
        .symbol .plus :: .word .quoted b :: normalForm xs := rfl
    rw [hstep, ih]

lemma normalForm_ident {xs : List Lexeme} {x : Ident} (h : IsIdent xs x) : normalForm xs = xs := by
  cases h with
  | name hk => simp [normalForm, Lexeme.normal?, hk]
  | numeral | html => rfl
  | @quoted a b xs h =>
    have hstep : normalForm (.word .quoted a :: xs) = .word .quoted a :: normalForm xs := rfl
    rw [hstep, normalForm_concatenation h]

lemma normalForm_symbol {s : Symbol} (h : s ≠ .semicolon ∧ s ≠ .comma ∧ s ≠ .line)
    (xs : List Lexeme) : normalForm (.symbol s :: xs) = .symbol s :: normalForm xs := by
  cases s <;> first | rfl | simp at h

lemma normalForm_anchor {xs : List Lexeme} {anchor : Option String} (h : IsAnchor xs anchor) :
    normalForm xs = xs := by
  cases h with
  | none => rfl
  | field h => rw [normalForm_symbol (by decide), normalForm_ident h]
  | compass h h' =>
    rw [normalForm_symbol (by decide), normalForm_append, normalForm_ident h,
      normalForm_symbol (by decide), normalForm_ident h']

lemma normalForm_item {xs : List Lexeme} {item : Item} (h : IsItem xs item) :
    normalForm xs = xs := by
  cases h with
  | implicit h => exact normalForm_ident h
  | text h h' =>
    rw [normalForm_append, normalForm_ident h, normalForm_symbol (by decide), normalForm_ident h']

lemma normalForm_name {xs : List Lexeme} {name : Option Ident} (h : IsName xs name) :
    normalForm xs = xs := by
  cases h with
  | none => rfl
  | some h => exact normalForm_ident h

lemma IsItems.normal {xs : List Lexeme} {items : List Item} (h : IsItems xs items) :
    IsItems (normalForm xs) items := by
  induction h with
  | nil => exact .nil
  | comma _ ih => exact ih
  | semicolon _ ih => exact ih
  | cons h _ ih =>
    rw [normalForm_append, normalForm_item h]
    exact .cons h ih

/-- The brackets of a list stay, so there are lists in normal form where there were any. -/
lemma IsLists.normal {xs : List Lexeme} {items : List Item} (h : IsLists xs items) :
    IsLists (normalForm xs) items ∧ (xs ≠ [] → normalForm xs ≠ []) := by
  induction h with
  | nil => exact ⟨.nil, id⟩
  | cons h _ ih =>
    rw [normalForm_symbol (by decide), normalForm_append, normalForm_symbol (by decide)]
    exact ⟨.cons h.normal ih.1, fun _ => List.cons_ne_nil _ _⟩

mutual

lemma IsClauses.normal {xs : List Lexeme} {clauses : List Clause} :
    IsClauses xs clauses → IsClauses (normalForm xs) clauses
  | .nil => .nil
  | .semicolon h => by
    have hrest := IsClauses.normal h
    exact hrest
  | .cons h h' => by
    rw [normalForm_append]
    exact .cons (IsClause.normal h) (IsClauses.normal h')

lemma IsClause.normal {xs : List Lexeme} {clause : Clause} :
    IsClause xs clause → IsClause (normalForm xs) clause
  | .defaults hx h hne => by
    obtain ⟨y, hy, heq⟩ := normalForm_keyword hx _
    rw [heq]
    exact .defaults hy h.normal.1 (h.normal.2 hne)
  | .graph hx h hne => by
    obtain ⟨y, hy, heq⟩ := normalForm_keyword hx _
    rw [heq]
    exact .graph hy h.normal.1 (h.normal.2 hne)
  | .assign h h' => by
    rw [normalForm_append, normalForm_ident h, normalForm_symbol (by decide), normalForm_ident h']
    exact .assign h h'
  | .node h h' hl => by
    rw [normalForm_append, normalForm_append, normalForm_ident h, normalForm_anchor h']
    exact .node h h' hl.normal.1
  | .block h => .block (IsBlock.normal h)
  | .edges h ho h' hs hl => by
    rw [normalForm_append, normalForm_operator ho, normalForm_append, normalForm_append]
    exact .edges (IsTerminal.normal h) .arrow (IsTerminal.normal h') (IsTerminals.normal hs)
      hl.normal.1

lemma IsTerminal.normal {xs : List Lexeme} {terminal : Terminal} :
    IsTerminal xs terminal → IsTerminal (normalForm xs) terminal
  | .node h h' => by
    rw [normalForm_append, normalForm_ident h, normalForm_anchor h']
    exact .node h h'
  | .block h => .block (IsBlock.normal h)

lemma IsTerminals.normal {xs : List Lexeme} {terminals : List Terminal} :
    IsTerminals xs terminals → IsTerminals (normalForm xs) terminals
  | .nil => .nil
  | .cons ho h h' => by
    rw [normalForm_operator ho, normalForm_append]
    exact .cons .arrow (IsTerminal.normal h) (IsTerminals.normal h')

lemma IsBlock.normal {xs : List Lexeme} {block : Block} :
    IsBlock xs block → IsBlock (normalForm xs) block
  | .bare h => by
    rw [normalForm_symbol (by decide), normalForm_append]
    exact .bare (IsClauses.normal h)
  | .subgraph hx hn h => by
    obtain ⟨y, hy, heq⟩ := normalForm_keyword hx _
    rw [heq, normalForm_append, normalForm_name hn, normalForm_symbol (by decide),
      normalForm_append]
    exact .subgraph hy hn (IsClauses.normal h)

end

lemma IsStrict.normal {xs : List Lexeme} {strict : Bool} (h : IsStrict xs strict) :
    IsStrict (normalForm xs) strict := by
  cases h with
  | absent => exact .absent
  | present hx =>
    obtain ⟨y, hy, heq⟩ := normalForm_keyword hx []
    rw [heq]
    exact .present hy

lemma IsDeclaration.normal {xs : List Lexeme} {d : Declaration} (h : IsDeclaration xs d) :
    IsDeclaration (normalForm xs) d := by
  obtain ⟨hs, hx, hn, hc⟩ := h
  obtain ⟨y, hy, heq⟩ := normalForm_keyword hx _
  rw [normalForm_append, heq, normalForm_append, normalForm_name hn,
    normalForm_symbol (by decide), normalForm_append]
  exact .intro hs.normal hy hn hc.normal

lemma IsDeclarations.normal {xs : List Lexeme} {ds : List Declaration}
    (h : IsDeclarations xs ds) : IsDeclarations (normalForm xs) ds := by
  induction h with
  | nil => exact .nil
  | semicolon _ ih => exact ih
  | cons h _ ih =>
    rw [normalForm_append]
    exact .cons h.normal ih

/-- What derives a document derives it in normal form. -/
theorem IsDocument.normal {xs : List Lexeme} {document : Document} (h : IsDocument xs document) :
    IsDocument (normalForm xs) document :=
  ⟨h.1.normal, h.2⟩

/-- Lexemes derive one document at most. -/
theorem IsDocument.unique {xs : List Lexeme} {d e : Document} (hd : IsDocument xs d)
    (he : IsDocument xs e) : d = e := by
  let ts : List Token := xs.map fun x => ⟨x, {}⟩
  have hts : lexemes ts = xs := by
    rw [lexemes, List.map_map]
    exact List.map_id xs
  rw [← hts, ← document_iff] at hd he
  exact Except.ok.inj (hd.symm.trans he)

end Grammar

/-! ### Documents in normal form -/

namespace Reader

variable {reader : Reader}

/-- What tokens are read as. -/
def parseTokens (reader : Reader) (tokens : Tokens) : Except SyntaxError Parsed :=
  (Document.ofTokens tokens).map fun document => .ofList (reader.graphs document)

lemma parseTokens_eq_ok_iff {tokens : Tokens} {parsed : Parsed} :
    reader.parseTokens tokens = .ok parsed ↔
      ∃ document, IsDocument (lexemes tokens.list) document ∧
        parsed = .ofList (reader.graphs document) := by
  simp only [← ofTokens_eq_ok_iff, parseTokens]
  cases Document.ofTokens tokens <;> simp [Except.map, eq_comm]

/-- To read a source is to read its tokens. -/
lemma parse_eq_ok_iff_parseTokens {source : String} {parsed : Parsed} :
    reader.parse source = .ok parsed ↔
      ∃ tokens, Tokens.ofString source = .ok tokens ∧ reader.parseTokens tokens = .ok parsed := by
  simp only [parse_eq_ok_iff, ofString_eq_ok_iff, parseTokens_eq_ok_iff]
  constructor
  · rintro ⟨document, ⟨tokens, ht, hd⟩, hparsed⟩
    exact ⟨tokens, ht, document, hd, hparsed⟩
  · rintro ⟨tokens, ht, document, hd, hparsed⟩
    exact ⟨document, ⟨tokens, ht, hd⟩, hparsed⟩

lemma parseTokens_normal {tokens : Tokens} {parsed : Parsed}
    (h : reader.parseTokens tokens = .ok parsed) :
    reader.parseTokens tokens.normal = .ok parsed := by
  obtain ⟨document, hd, hparsed⟩ := parseTokens_eq_ok_iff.1 h
  rw [parseTokens_eq_ok_iff, lexemes_normal]
  exact ⟨document, hd.normal, hparsed⟩

lemma parseTokens_unique {tokens tokens' : Tokens} {parsed parsed' : Parsed}
    (h : reader.parseTokens tokens = .ok parsed) (h' : reader.parseTokens tokens' = .ok parsed')
    (hsame : lexemes tokens.normal.list = lexemes tokens'.normal.list) : parsed = parsed' := by
  obtain ⟨d, hd, rfl⟩ := parseTokens_eq_ok_iff.1 (parseTokens_normal h)
  obtain ⟨e, he, rfl⟩ := parseTokens_eq_ok_iff.1 (parseTokens_normal h')
  rw [hsame] at hd
  rw [hd.unique he]

/-- Tokens that are accepted are accepted in normal form, with the same graphs. So tokens, or
sources, that are accepted and have the same normal form hold the same graphs. -/
theorem parse_of_normal (reader : Reader) :
    (∀ tokens parsed, reader.parseTokens tokens = .ok parsed →
      reader.parseTokens tokens.normal = .ok parsed) ∧
    (∀ tokens tokens' parsed parsed', reader.parseTokens tokens = .ok parsed →
      reader.parseTokens tokens' = .ok parsed' →
      lexemes tokens.normal.list = lexemes tokens'.normal.list → parsed = parsed') ∧
    ∀ source source' tokens tokens' parsed parsed', Tokens.ofString source = .ok tokens →
      Tokens.ofString source' = .ok tokens' → reader.parse source = .ok parsed →
      reader.parse source' = .ok parsed' →
      lexemes tokens.normal.list = lexemes tokens'.normal.list → parsed = parsed' := by
  refine ⟨fun _ _ => parseTokens_normal, fun _ _ _ _ => parseTokens_unique, ?_⟩
  intro source source' tokens tokens' parsed parsed' ht ht' h h' hsame
  obtain ⟨us, hus, hread⟩ := parse_eq_ok_iff_parseTokens.1 h
  obtain ⟨us', hus', hread'⟩ := parse_eq_ok_iff_parseTokens.1 h'
  rw [ht, Except.ok.injEq] at hus
  rw [ht', Except.ok.injEq] at hus'
  subst hus hus'
  exact parseTokens_unique hread hread' hsame

/-- Capitals, separators and the operator of the other kind, beside the same graph without them. -/
theorem parse_of_normal_strict : ∃ tokens tokens' parsed,
    Tokens.ofString "STRICT Graph\x7ba--b;c[x,y];\x7d" = .ok tokens ∧
      Tokens.ofString "strict graph\x7ba->b c[x y]\x7d" = .ok tokens' ∧
      lexemes tokens.normal.list = lexemes tokens'.normal.list ∧
      Reader.parseTokens {} tokens.normal = .ok parsed ∧
      Reader.parse {} "STRICT Graph\x7ba--b;c[x,y];\x7d" = .ok parsed ∧
      Reader.parse {} "strict graph\x7ba->b c[x y]\x7d" = .ok parsed := by
  have ha : IsIdent [.word .name "a"] ⟨"a"⟩ := .name (by decide +kernel)
  have hb : IsIdent [.word .name "b"] ⟨"b"⟩ := .name (by decide +kernel)
  have hc : IsIdent [.word .name "c"] ⟨"c"⟩ := .name (by decide +kernel)
  have hx : IsIdent [.word .name "x"] ⟨"x"⟩ := .name (by decide +kernel)
  have hy : IsIdent [.word .name "y"] ⟨"y"⟩ := .name (by decide +kernel)
  have hedge := IsClause.edges (.node ha .none) .line (.node hb .none) .nil .nil
  have hitems := IsItems.cons (.implicit hx) (.comma (.cons (.implicit hy) .nil))
  have hclauses := IsClauses.cons hedge
    (.semicolon (.cons (.node hc .none (.cons hitems .nil)) (.semicolon .nil)))
  have hd : IsDeclaration (.word .name "STRICT" :: .word .name "Graph" :: _)
      ⟨true, .graph, none, _⟩ :=
    .intro (.present (by decide +kernel)) (by decide +kernel) .none hclauses
  have hread : Reader.parse {} "STRICT Graph\x7ba--b;c[x,y];\x7d" = .ok _ :=
    parse_of_lexemes (by decide +kernel) hd
  have hread' : Reader.parse {} "strict graph\x7ba->b c[x y]\x7d" = .ok _ :=
    parse_of_lexemes (by decide +kernel) hd.normal
  obtain ⟨tokens, ht, hparsed⟩ := parse_eq_ok_iff_parseTokens.1 hread
  obtain ⟨tokens', ht', -⟩ := parse_eq_ok_iff_parseTokens.1 hread'
  have hsame : lexemes tokens.normal.list = lexemes tokens'.normal.list := by
    have hforms : (Tokens.ofString "STRICT Graph\x7ba--b;c[x,y];\x7d").map
          (fun tokens => lexemes tokens.normal.list) =
        (Tokens.ofString "strict graph\x7ba->b c[x y]\x7d").map
          fun tokens => lexemes tokens.normal.list := by
      decide +kernel
    rw [ht, ht'] at hforms
    exact Except.ok.inj hforms
  obtain ⟨hnormal, -, hsources⟩ := parse_of_normal {}
  have hequal := hsources _ _ tokens tokens' _ _ ht ht' hread hread' hsame
  exact ⟨tokens, tokens', _, ht, ht', hsame, hnormal tokens _ hparsed, hread, hequal ▸ hread'⟩

end Reader

end DotGraph
