import DotGraph.Proofs.Braces
import DotGraph.Proofs.Notation

/-!
# Sources one below the other

A source that starts on the line below another one is scanned as if it stood alone, apart from the
positions: nothing that was read before is open at the end of the first source, and a newline ends
a line comment. The grammar reads the declarations of the first source in front of those of the
second.
-/

namespace DotGraph

open Scan Grammar

/-! ### Positions in a text that starts on a new line -/

/-- The position in the whole text, where the text that `p` counts in starts on the line below
`base`. -/
def Position.below (base p : Position) : Position :=
  { p with offset := base.offset + 1 + p.offset, line := base.line + p.line }

def SyntaxError.below (base : Position) (e : SyntaxError) : SyntaxError :=
  { e with position := base.below e.position }

def Token.below (base : Position) (t : Token) : Token :=
  { t with position := base.below t.position }

def Tokens.below (base : Position) (tokens : Tokens) : Tokens :=
  ⟨tokens.list.map (Token.below base), base.below tokens.stop⟩

namespace Position

lemma below_start (base : Position) : base.below {} = base.step '\n' := rfl

lemma step_below (base p : Position) (c : Char) :
    (base.below p).step c = base.below (p.step c) := by
  unfold step below
  split <;> simp [Nat.add_assoc]

lemma advance_below (base p : Position) (cs : List Char) :
    (base.below p).advance cs = base.below (p.advance cs) := by
  induction cs generalizing p with
  | nil => rfl
  | cons c cs ih => rw [advance_cons, advance_cons, step_below, ih]

end Position

namespace Scan

/-- What is skipped, where the text starts on the line below `base`. -/
def Gap.below (base : Position) : Gap → Gap
  | blockComment start => blockComment (base.below start)
  | gap => gap

/-- A result where the text starts on the line below `base`. -/
def moved (base : Position) (f : α → α) (r : Except SyntaxError α) : Except SyntaxError α :=
  (r.map f).mapError (SyntaxError.below base)

/-- Whether a line has just started is all that skipping asks of a position. -/
lemma skip_below (base : Position) (gap : Gap) (p : Position) (cs : List Char) :
    skip (gap.below base) (base.below p) cs =
      moved base (fun r => (base.below r.1, r.2)) (skip gap p cs) := by
  fun_induction skip gap p cs with
  | case1 => rfl
  | case2 gap p h =>
    cases gap with
    | blockComment start => exact (h start rfl).elim
    | blank => exact skip_end _
    | lineComment => exact skip_end_line _
  | case3 start p cs ih =>
    rw [← ih, ← Position.step_below, ← Position.step_below]
    exact skip_blockEnd _ _ cs
  | case4 start p c cs h ih =>
    rw [← ih, ← Position.step_below]
    exact skip_block _ _ cs h
  | case5 p cs ih =>
    rw [← ih, ← Position.step_below]
    exact skip_newline _ cs
  | case6 p c cs h ih =>
    rw [← ih, ← Position.step_below]
    exact skip_line _ cs h
  | case7 p c cs h ih =>
    rw [← ih, ← Position.step_below]
    exact skip_blank h _ cs
  | case8 p c cs hb hc ih =>
    rw [Bool.and_eq_true, decide_eq_true_eq] at hc
    obtain ⟨rfl, hp⟩ := hc
    rw [← ih, ← Position.step_below]
    exact skip_hash _ cs hp
  | case9 p cs hb hc ih =>
    rw [← ih, ← Position.step_below, ← Position.step_below]
    exact skip_slashes _ cs
  | case10 p cs hb hc ih =>
    rw [← Position.step_below, ← Position.step_below] at ih
    exact (skip_blockStart _ cs).trans ih
  | case11 p c cs hs ht hb hc =>
    rw [Bool.not_eq_true] at hb hc
    exact skip_stop hb hc fun ds hslash => ⟨hs ds hslash, ht ds hslash⟩

/-- Where skipping stopped, it stops or goes on in front of a further line: at the end of the text
nothing is open that a newline does not close. -/
lemma skip_append {gap : Gap} {p q : Position} {cs rest : List Char}
    (h : skip gap p cs = .ok (q, rest)) (more : List Char) :
    skip gap p (cs ++ '\n' :: more) = skip .blank q (rest ++ '\n' :: more) := by
  fun_induction skip gap p cs with
  | case1 => cases h
  | case2 gap p hgap =>
    cases h
    cases gap with
    | blockComment start => exact (hgap start rfl).elim
    | blank => rfl
    | lineComment => exact (skip_newline _ more).trans (skip_blank rfl _ more).symm
  | case3 start p cs ih => exact (skip_blockEnd _ _ _).trans (ih h)
  | case4 start p c cs hc ih =>
    refine (skip_block _ _ _ fun ds hstar hslash => ?_).trans (ih h)
    cases cs with
    | nil => cases (List.cons.inj hslash).1
    | cons d cs =>
      rw [(List.cons.inj hslash).1] at hc
      exact hc cs hstar rfl
  | case5 p cs ih => exact (skip_newline _ _).trans (ih h)
  | case6 p c cs hc ih => exact (skip_line _ _ hc).trans (ih h)
  | case7 p c cs hb ih => exact (skip_blank hb _ _).trans (ih h)
  | case8 p c cs hb hc ih =>
    rw [Bool.and_eq_true, decide_eq_true_eq] at hc
    obtain ⟨rfl, hp⟩ := hc
    exact (skip_hash _ _ hp).trans (ih h)
  | case9 p cs hb hc ih => exact (skip_slashes _ _).trans (ih h)
  | case10 p cs hb hc ih => exact (skip_blockStart _ _).trans (ih h)
  | case11 p c cs hs ht hb hc =>
    cases h
    rfl

/-- A text has the same tokens wherever a line starts, apart from the positions. -/
theorem tokensFrom_below (base p : Position) (cs : List Char) :
    tokensFrom (base.below p) cs = moved base (Tokens.below base) (tokensFrom p cs) := by
  have hskip (p : Position) (cs : List Char) := skip_below base .blank p cs
  simp only [Gap.below] at hskip
  fun_induction tokensFrom p cs with
  | case1 p cs e hs => rw [tokensFrom_eq, hskip, hs]; rfl
  | case2 p cs q hs => rw [tokensFrom_eq, hskip, hs]; rfl
  | case3 p cs q c unread hs fault hx =>
    rw [tokensFrom_eq, hskip, hs]
    simp only [moved, Except.map, Except.mapError, hx]
    rfl
  | case4 p cs q c unread hs x rest hx e he ih =>
    rw [tokensFrom_eq, hskip, hs]
    simp only [moved, Except.map, Except.mapError, hx]
    rw [Position.advance_below, ih, he]
    rfl
  | case5 p cs q c unread hs x rest hx tokens ht ih =>
    rw [tokensFrom_eq, hskip, hs]
    simp only [moved, Except.map, Except.mapError, hx]
    rw [Position.advance_below, ih, ht]
    rfl

/-- The tokens of a text stand in front of those of the lines below it. -/
theorem tokensFrom_append {p : Position} {cs : List Char} {tokens : Tokens}
    (h : tokensFrom p cs = .ok tokens) (more : List Char) :
    tokensFrom p (cs ++ '\n' :: more) =
      (tokensFrom (tokens.stop.step '\n') more).map (Tokens.prepend tokens.list) := by
  have hends : Ends ('\n' :: more) := ends_cons (by decide) (by decide) more
  have hcongr {q : Position} {p : Position} {cs rest : List Char}
      (hs : skip .blank p cs = .ok (q, rest)) :
      tokensFrom p (cs ++ '\n' :: more) = tokensFrom q (rest ++ '\n' :: more) := by
    rw [tokensFrom_eq, skip_append hs, ← tokensFrom_eq]
  -- along the tokens of the first text; the others are read from where its last line ends
  fun_induction tokensFrom p cs generalizing tokens with
  | case1 => cases h
  | case2 p cs q hs =>
    cases h
    rw [hcongr hs, List.nil_append, tokensFrom_blank rfl]
    cases tokensFrom (q.step '\n') more <;> rfl
  | case3 => cases h
  | case4 => cases h
  | case5 p cs q c unread hs x rest hx others ho ih =>
    cases h
    have hb := not_isBlank_of_skip hs
    -- no word runs over the newline, so this lexeme ends where it ended before
    have hlexeme := lexeme_extend hx hends
    rw [hcongr hs, List.cons_append, tokensFrom_eq, skip_of_lexeme q hb hlexeme]
    simp only [hlexeme, ih ho]
    cases tokensFrom (others.stop.step '\n') more <;> rfl

end Scan

/-- A source on the lines below another one adds its tokens to those of the first. -/
theorem Tokens.ofString_append {first : String} {tokens : Tokens}
    (h : Tokens.ofString first = .ok tokens) (second : String) :
    Tokens.ofString (first ++ "\n" ++ second) = moved tokens.stop
      (fun more => (more.below tokens.stop).prepend tokens.list) (Tokens.ofString second) := by
  have hlist : (first ++ "\n" ++ second).toList = first.toList ++ '\n' :: second.toList := by
    simp
  rw [Tokens.ofString, hlist, tokensFrom_append h, ← Position.below_start, tokensFrom_below,
    ← Tokens.ofString]
  cases Tokens.ofString second <;> rfl

/-! ### Declarations one after the other -/

namespace Grammar

lemma lexemes_append (ts us : List Token) : lexemes (ts ++ us) = lexemes ts ++ lexemes us :=
  List.map_append

lemma lexemes_below (base : Position) (ts : List Token) :
    lexemes (ts.map (Token.below base)) = lexemes ts := by
  rw [lexemes, List.map_map]
  rfl

lemma IsDeclaration.isDocument {xs : List Lexeme} {d : Declaration} (h : IsDeclaration xs d) :
    IsDocument xs [d] := by
  have hcons := IsDeclarations.cons h .nil
  rw [List.append_nil] at hcons
  exact ⟨hcons, List.cons_ne_nil d []⟩

lemma IsDeclaration.unique {xs : List Lexeme} {d e : Declaration} (hd : IsDeclaration xs d)
    (he : IsDeclaration xs e) : d = e :=
  List.singleton_inj.1 (hd.isDocument.unique he.isDocument)

lemma isDeclarations_semicolon_iff {xs : List Lexeme} {ds : List Declaration} :
    IsDeclarations (.symbol .semicolon :: xs) ds ↔ IsDeclarations xs ds := by
  refine ⟨?_, .semicolon⟩
  intro h
  generalize hz : Lexeme.symbol .semicolon :: xs = zs at h
  cases h with
  | nil => cases hz
  | semicolon h =>
    cases hz
    exact h
  | @cons ys ys' d ds h h' =>
    have hfront := (h.front ys').2
    rw [← hz] at hfront
    cases hfront

/-- Behind declarations, what follows is read on its own. -/
theorem isDeclarations_append_iff {xs ys : List Lexeme} {ds all : List Declaration}
    (h : IsDeclarations xs ds) :
    IsDeclarations (xs ++ ys) all ↔ ∃ es, IsDeclarations ys es ∧ all = ds ++ es := by
  induction h generalizing all with
  | nil => simp
  | semicolon h ih => rw [List.cons_append, isDeclarations_semicolon_iff, ih]
  | @cons xs xs' d ds h h' ih =>
    rw [List.append_assoc]
    constructor
    · intro hall
      obtain ⟨d', others, rfl, hd, hothers⟩ :=
        isDeclaration_of_closes (closes_of_isDeclaration h) hall
      obtain ⟨es, hes, rfl⟩ := ih.1 hothers
      exact ⟨es, hes, by rw [h.unique hd, List.cons_append]⟩
    · rintro ⟨es, hes, rfl⟩
      exact .cons h (ih.2 ⟨es, hes, rfl⟩)

/-- Semicolons alone declare nothing, and nothing else does. -/
lemma isDeclarations_nil_iff {xs : List Lexeme} :
    IsDeclarations xs [] ↔ ∀ x ∈ xs, x = .symbol .semicolon := by
  induction xs with
  | nil => simp [IsDeclarations.nil]
  | cons x xs ih =>
    rw [List.forall_mem_cons]
    by_cases hx : x = .symbol .semicolon
    · rw [hx, isDeclarations_semicolon_iff, ih, and_iff_right rfl]
    · refine ⟨?_, fun h => absurd h.1 hx⟩
      intro h
      generalize hds : ([] : List Declaration) = ds at h
      generalize hz : x :: xs = zs at h
      cases h with
      | nil => cases hz
      | semicolon h => exact absurd (List.cons.inj hz).1 hx
      | cons => cases hds

/-- Each declaration has lexemes of its own. -/
lemma IsDeclarations.block {xs : List Lexeme} {ds : List Declaration} (h : IsDeclarations xs ds)
    {d : Declaration} (hd : d ∈ ds) :
    ∃ before block after, xs = before ++ (block ++ after) ∧ IsDeclaration block d := by
  induction h with
  | nil => cases hd
  | semicolon h ih =>
    obtain ⟨before, block, after, rfl, hblock⟩ := ih hd
    exact ⟨.symbol .semicolon :: before, block, after, rfl, hblock⟩
  | @cons ys ys' d' ds h h' ih =>
    rcases List.mem_cons.1 hd with rfl | hd
    · exact ⟨[], ys, ys', rfl, h⟩
    · obtain ⟨before, block, after, rfl, hblock⟩ := ih hd
      exact ⟨ys ++ before, block, after, by rw [List.append_assoc], hblock⟩

end Grammar

/-! ### Documents one below the other -/

/-- The source holds nothing but blanks, comments and semicolons. -/
def IsIdle (source : String) : Prop :=
  ∃ tokens, Tokens.ofString source = .ok tokens ∧
    ∀ token ∈ tokens.list, token.lexeme = .symbol .semicolon

lemma isIdle_iff {source : String} : IsIdle source ↔
    ∃ tokens, Tokens.ofString source = .ok tokens ∧ IsDeclarations (lexemes tokens.list) [] := by
  simp [IsIdle, isDeclarations_nil_iff, lexemes]

/-- What is declared below a document is declared in the second source on its own. -/
lemma Document.ofString_append_iff {first second : String} {document all : Document}
    (h : ofString first = .ok document) :
    ofString (first ++ "\n" ++ second) = .ok all ↔
      (∃ more, ofString second = .ok more ∧ all = document ++ more) ∨
        IsIdle second ∧ all = document := by
  obtain ⟨tokens, ht, hd, hne⟩ := ofString_eq_ok_iff.1 h
  simp only [ofString_eq_ok_iff, isIdle_iff, Tokens.ofString_append ht, moved]
  cases Tokens.ofString second with
  | error e => simp [Except.map, Except.mapError]
  | ok more =>
    have hlexemes : lexemes ((more.below tokens.stop).prepend tokens.list).list =
        lexemes tokens.list ++ lexemes more.list := by
      rw [Tokens.prepend, Tokens.below, lexemes_append, lexemes_below]
    simp only [Except.map, Except.mapError, Except.ok.injEq, exists_eq_left', hlexemes, IsDocument,
      isDeclarations_append_iff hd]
    constructor
    · rintro ⟨⟨es, hes, rfl⟩, -⟩
      by_cases hnone : es = []
      · subst hnone
        exact .inr ⟨hes, document.append_nil⟩
      · exact .inl ⟨es, ⟨hes, hnone⟩, rfl⟩
    · rintro (⟨more, ⟨hmore, -⟩, rfl⟩ | ⟨hidle, rfl⟩)
      · exact ⟨⟨more, hmore, rfl⟩, fun hnil => hne (List.append_eq_nil_iff.1 hnil).1⟩
      · exact ⟨⟨[], hidle, all.append_nil.symm⟩, hne⟩

namespace Reader

variable {reader : Reader}

lemma graphs_append (document more : Document) :
    reader.graphs (document ++ more) = reader.graphs document ++ reader.graphs more :=
  List.map_append

/-- Each graph has lexemes of its own, which are read as that graph alone. -/
lemma exists_block_of_parse {source : String} {parsed : Parsed} {tokens : Tokens}
    (h : reader.parse source = .ok parsed) (ht : Tokens.ofString source = .ok tokens) {g : Graph}
    (hg : g ∈ parsed.toList) :
    ∃ before block after, lexemes tokens.list = before ++ (block ++ after) ∧
      ∀ alone : Tokens, lexemes alone.list = block →
        reader.parseTokens alone = .ok (.single g) := by
  obtain ⟨document, hdocument, rfl⟩ := parse_eq_ok_iff.1 h
  obtain ⟨tokens', ht', hd, -⟩ := ofString_eq_ok_iff.1 hdocument
  rw [ht, Except.ok.injEq] at ht'
  subst ht'
  rw [Parsed.toList_ofList] at hg
  obtain ⟨d, hmem, rfl⟩ := List.mem_map.1 hg
  obtain ⟨before, block, after, heq, hblock⟩ := hd.block hmem
  refine ⟨before, block, after, heq, ?_⟩
  intro alone halone
  rw [← halone] at hblock
  exact parseTokens_eq_ok_iff.2 ⟨[d], hblock.isDocument, rfl⟩

/-- What stands on the lines below a document is read as if it stood alone, and its graphs come
behind those of the document; it may also hold no graph at all. Within the document each graph
depends on its own lexemes only. -/
theorem parse_append {first : String} {parsed : Parsed} (h : reader.parse first = .ok parsed) :
    (∀ second whole, reader.parse (first ++ "\n" ++ second) = .ok whole ↔
      (∃ more, reader.parse second = .ok more ∧ whole = .ofList (parsed.toList ++ more.toList)) ∨
        IsIdle second ∧ whole = parsed) ∧
    ∀ tokens, Tokens.ofString first = .ok tokens → ∀ g ∈ parsed.toList,
      ∃ before block after, lexemes tokens.list = before ++ (block ++ after) ∧
        ∀ alone : Tokens, lexemes alone.list = block →
          reader.parseTokens alone = .ok (.single g) := by
  refine ⟨?_, fun _ ht _ hg => exists_block_of_parse h ht hg⟩
  intro second whole
  obtain ⟨document, hdocument, rfl⟩ := parse_eq_ok_iff.1 h
  simp only [parse_eq_ok_iff, Document.ofString_append_iff hdocument, Parsed.toList_ofList]
  constructor
  · rintro ⟨all, ⟨more, hmore, rfl⟩ | ⟨hidle, rfl⟩, rfl⟩
    · exact .inl ⟨_, ⟨more, hmore, rfl⟩, by rw [graphs_append, Parsed.toList_ofList]⟩
    · exact .inr ⟨hidle, rfl⟩
  · rintro (⟨_, ⟨more, hmore, rfl⟩, rfl⟩ | ⟨hidle, rfl⟩)
    · exact ⟨document ++ more, .inl ⟨more, hmore, rfl⟩, by rw [graphs_append, Parsed.toList_ofList]⟩
    · exact ⟨document, .inr ⟨hidle, rfl⟩, rfl⟩

/-- A line comment ends the first source and a line of its own starts the second. -/
theorem parse_append_commented : ∃ parsed more whole,
    Reader.parse {} "strict digraph\x7bnode[k];a\x7d//b" = .ok parsed ∧
      Reader.parse {} "#b\ngraph\x7ba\x7d" = .ok more ∧
      Reader.parse {} ("strict digraph\x7bnode[k];a\x7d//b" ++ "\n" ++ "#b\ngraph\x7ba\x7d") =
        .ok whole ∧
      whole.toList = parsed.toList ++ more.toList ∧
      Reader.parse {} ("strict digraph\x7bnode[k];a\x7d//b" ++ "\n" ++ "/*b*/;") = .ok parsed := by
  have hk : IsIdent [.word .name "k"] ⟨"k"⟩ := .name (by decide +kernel)
  have ha : IsIdent [.word .name "a"] ⟨"a"⟩ := .name (by decide +kernel)
  have hnode : IsClause (.word .name "node" :: _) (.defaults .node [(⟨"k"⟩, .implicit)]) :=
    .defaults rfl (IsItem.implicit hk).lists (List.cons_ne_nil _ _)
  have hclauses := IsClauses.cons (.node ha .none .nil) .nil
  have hstrict : IsStrict [.word .name "strict"] true := .present (by decide +kernel)
  have hfirst : IsDeclaration _ ⟨true, .digraph, none, _⟩ :=
    .intro hstrict (keyword?_text .digraph) .none (.cons hnode (.semicolon hclauses))
  have hsecond : IsDeclaration _ ⟨false, .graph, none, _⟩ :=
    .intro .absent (keyword?_text .graph) .none hclauses
  have hparsed : Reader.parse {} "strict digraph\x7bnode[k];a\x7d//b" = .ok _ :=
    parse_of_lexemes (by decide +kernel) hfirst
  have hmore : Reader.parse {} "#b\ngraph\x7ba\x7d" = .ok _ :=
    parse_of_lexemes (by decide +kernel) hsecond
  have hidle : IsIdle "/*b*/;" := by
    refine ⟨⟨[⟨.symbol .semicolon, ⟨5, 1, 6, false⟩⟩], ⟨6, 1, 7, false⟩⟩, by decide +kernel, ?_⟩
    simp
  exact ⟨_, _, _, hparsed, hmore, ((parse_append hparsed).1 _ _).2 (.inl ⟨_, hmore, rfl⟩), rfl,
    ((parse_append hparsed).1 _ _).2 (.inr ⟨hidle, rfl⟩)⟩

end Reader

end DotGraph
