import DotGraph.Document.Graphs
import DotGraph.Proofs.Coverage
import DotGraph.Proofs.GrammarSound

/-!
# Places that errors name

Every error in a source names a place of that source, in front of one of its characters or at its
end. The scanner names a place that it has reached or where a comment began. A reader of the
grammar leaves or refuses a final part of its tokens, so it names one of them or the end.
-/

namespace DotGraph

/-- A place in front of a character of the text, or at its end. -/
def Position.IsIn (p : Position) (cs : List Char) : Prop :=
  ∃ before, before <+: cs ∧ p.IsBehind before

/-! ### Errors of the scanner -/

namespace Scan

variable {p : Position} {before cs : List Char} {e : SyntaxError}

/-- The place where a comment that is open began. -/
def Gap.OpenedIn (before : List Char) (gap : Gap) : Prop :=
  ∀ start, gap = .blockComment start → start.IsIn before

lemma isIn_append (h : p.IsIn before) (cs : List Char) : p.IsIn (before ++ cs) := by
  obtain ⟨front, hfront, hp⟩ := h
  exact ⟨front, hfront.trans (List.prefix_append before cs), hp⟩

lemma openedIn_blank (before : List Char) : Gap.blank.OpenedIn before := by
  intro start h
  cases h

lemma openedIn_lineComment (before : List Char) : Gap.lineComment.OpenedIn before := by
  intro start h
  cases h

lemma isIn_of_skip {gap : Gap} (hp : p.IsBehind before) (hgap : gap.OpenedIn before)
    (h : skip gap p cs = .error e) : e.position.IsIn (before ++ cs) := by
  fun_induction skip gap p cs generalizing before with
  | case1 start p =>
    cases h
    exact isIn_append (hgap start rfl) []
  | case2 => cases h
  | case3 start p cs ih =>
    simpa using ih ((hp.step '*').step '/') (openedIn_blank _) h
  | case4 start p c cs hc ih =>
    have hopen : (Gap.blockComment start).OpenedIn (before ++ [c]) :=
      fun s hs => isIn_append (hgap s hs) [c]
    simpa using ih (hp.step c) hopen h
  | case5 p cs ih => simpa using ih (hp.step '\n') (openedIn_blank _) h
  | case6 p c cs hc ih => simpa using ih (hp.step c) (openedIn_lineComment _) h
  | case7 p c cs hb ih => simpa using ih (hp.step c) (openedIn_blank _) h
  | case8 p c cs hb hc ih => simpa using ih (hp.step c) (openedIn_lineComment _) h
  | case9 p cs hb hc ih =>
    simpa using ih ((hp.step '/').step '/') (openedIn_lineComment _) h
  | case10 p cs hb hc ih =>
    have hopen : (Gap.blockComment p).OpenedIn (before ++ ['/'] ++ ['*']) := by
      rintro _ ⟨⟩
      exact ⟨before, by simp, hp⟩
    simpa using ih ((hp.step '/').step '*') hopen h
  | case11 => cases h

/-- The scanner stops at a place that it has reached, or names the start of an open comment. -/
theorem isIn_of_tokensFrom (hp : p.IsBehind before) (h : tokensFrom p cs = .error e) :
    e.position.IsIn (before ++ cs) := by
  fun_induction tokensFrom p cs generalizing before with
  | case1 p cs e' hs =>
    cases h
    exact isIn_of_skip hp (openedIn_blank before) hs
  | case2 => cases h
  | case3 p cs q c unread hs fault hx =>
    cases h
    obtain ⟨gone, rfl, hq, -⟩ := isRest_of_skip hp hs
    exact ⟨before ++ gone, by simp, hq⟩
  | case4 p cs q c unread hs x rest hx e' he ih =>
    cases h
    obtain ⟨gone, rfl, hq, -⟩ := isRest_of_skip hp hs
    have hin := ih (hq.advance x.spelling.toList) he
    rw [← lexeme_append hx]
    simpa using hin
  | case5 => cases h

end Scan

/-! ### Refusals of the grammar -/

namespace Parser

/-- The reader leaves, or refuses, a final part of the tokens. -/
def EndsIn (ts : List Token) : Except Refusal (α × List Token) → Prop
  | .ok (_, rest) => rest <:+ ts
  | .error r => r.rest <:+ ts

section EndsIn

variable {ts us : List Token} {read : Except Refusal (α × List Token)}

lemma EndsIn.mono (h : EndsIn us read) (hs : us <:+ ts) : EndsIn ts read := by
  cases read with
  | error r => exact List.IsSuffix.trans h hs
  | ok r => exact List.IsSuffix.trans h hs

lemma EndsIn.tail (h : EndsIn ts.tail read) : EndsIn ts read := h.mono (List.tail_suffix ts)

lemma EndsIn.bind {f : α × List Token → Except Refusal (β × List Token)} (h : EndsIn ts read)
    (hf : ∀ a rest, read = .ok (a, rest) → EndsIn rest (f (a, rest))) :
    EndsIn ts (read >>= f) := by
  cases read with
  | error r => exact h
  | ok r => exact (hf r.1 r.2 rfl).mono h

end EndsIn

variable (ts : List Token)

lemma concatenation_endsIn (literal : String) : EndsIn ts (concatenation literal ts) := by
  fun_induction concatenation literal ts with
  | case1 literal p next q ts ih =>
    exact ih.mono ((List.suffix_cons _ _).trans (List.suffix_cons _ _))
  | case2 literal p ts h => exact List.suffix_cons _ _
  | case3 => exact List.suffix_rfl

lemma ident_endsIn : EndsIn ts (ident ts) := by
  unfold ident
  split
  · split
    · exact List.suffix_rfl
    · exact List.suffix_cons _ _
  · exact List.suffix_cons _ _
  · exact List.suffix_cons _ _
  · exact (concatenation_endsIn _ _).mono (List.suffix_cons _ _)
  · exact List.suffix_rfl

lemma anchor_endsIn : EndsIn ts (anchor ts) := by
  unfold anchor
  split
  · apply (ident_endsIn ts.tail).tail.bind
    intro field rest _
    dsimp only
    split
    · apply (ident_endsIn rest.tail).tail.bind
      intro compass rest _
      exact List.suffix_rfl
    · exact List.suffix_rfl
  · exact List.suffix_rfl

lemma item_endsIn : EndsIn ts (item ts) := by
  unfold item
  apply (ident_endsIn ts).bind
  intro name rest _
  dsimp only
  split
  · apply (ident_endsIn rest.tail).tail.bind
    intro value rest _
    exact List.suffix_rfl
  · exact List.suffix_rfl

lemma items_endsIn : EndsIn ts (items ts) := by
  fun_induction items ts with
  | case1 => exact List.suffix_rfl
  | case2 p q rest ih => exact ih.mono ((List.suffix_cons _ _).trans (List.suffix_cons _ _))
  | case3 => exact List.suffix_cons _ _
  | case4 p rest ih => exact ih.mono (List.suffix_cons _ _)
  | case5 p rest ih => exact ih.mono (List.suffix_cons _ _)
  | case6 token rest _ _ _ _ r hr =>
    have hitem := item_endsIn (token :: rest)
    rwa [hr] at hitem
  | case7 token rest _ _ _ _ first left hfirst r hr ih =>
    have hitem := item_endsIn (token :: rest)
    rw [hfirst] at hitem
    rw [hr] at ih
    exact ih.mono hitem
  | case8 token rest _ _ _ _ first left hfirst others last hr ih =>
    have hitem := item_endsIn (token :: rest)
    rw [hfirst] at hitem
    rw [hr] at ih
    exact ih.mono hitem

lemma attributeLists_endsIn : EndsIn ts (attributeLists ts) := by
  unfold attributeLists
  split
  · exact (items_endsIn ts.tail).tail
  · exact List.suffix_rfl

lemma requiredLists_endsIn : EndsIn ts (requiredLists ts) := by
  unfold requiredLists
  split
  · exact (items_endsIn ts.tail).tail
  · exact List.suffix_rfl

lemma listClause_endsIn (make : List Item → Clause) : EndsIn ts (listClause make ts) := by
  apply (requiredLists_endsIn ts).bind
  intro items rest _
  exact List.suffix_rfl

lemma optionalName_endsIn : EndsIn ts (optionalName ts) := by
  unfold optionalName
  split
  · exact List.suffix_rfl
  · apply (ident_endsIn ts).bind
    intro name rest _
    exact List.suffix_rfl

/-- What follows a symbol that has to stand at the front. -/
lemma endsIn_of_expect {s : Symbol} {wanted : Wanted}
    {f : List Token → Except Refusal (α × List Token)}
    (hf : ∀ rest, expect s wanted ts = .ok rest → EndsIn rest (f rest)) :
    EndsIn ts (expect s wanted ts >>= f) := by
  cases h : expect s wanted ts with
  | error r =>
    unfold expect at h
    split at h
    · cases h
    · cases h
      exact List.suffix_rfl
  | ok rest =>
    have hrest := hf rest h
    unfold expect at h
    split at h
    · cases h
      exact hrest.tail
    · cases h

lemma blockName_endsIn : EndsIn ts (blockName ts) := by
  unfold blockName
  split
  · exact (optionalName_endsIn ts.tail).tail
  · exact List.suffix_rfl

lemma blockHead_endsIn : EndsIn ts (blockHead ts) := by
  apply (blockName_endsIn ts).bind
  intro name rest _
  apply endsIn_of_expect
  intro rest _
  exact List.suffix_rfl

lemma nodeTerminal_endsIn : EndsIn ts (nodeTerminal ts) := by
  apply (ident_endsIn ts).bind
  intro name rest _
  apply (anchor_endsIn rest).bind
  intro anchor rest _
  exact List.suffix_rfl

lemma afterTerminals_endsIn (first : Terminal) (others : List Terminal) :
    EndsIn ts (afterTerminals first others ts) := by
  unfold afterTerminals
  split
  · apply (attributeLists_endsIn ts).bind
    intro items rest _
    exact List.suffix_rfl
  · exact List.suffix_rfl
  · split
    · apply (ident_endsIn ts.tail).tail.bind
      intro value rest _
      exact List.suffix_rfl
    · apply (attributeLists_endsIn ts).bind
      intro items rest _
      exact List.suffix_rfl

mutual

theorem clauses_endsIn : (ts : List Token) → EndsIn ts (clauses ts)
  | [] => by
    rw [clauses_eq]
    exact List.suffix_rfl
  | t :: ts => by
    rw [clauses_eq]
    split
    · rename_i heq
      cases heq
    · rename_i heq
      cases heq
      exact List.suffix_cons _ _
    · rename_i heq
      cases heq
      exact (clauses_endsIn ts).mono (List.suffix_cons _ _)
    · rename_i heq
      cases heq
      apply (clause_endsIn (t :: ts)).bind
      intro first unread hfirst
      have := clause_length hfirst
      apply (clauses_endsIn unread).bind
      intro others left _
      exact List.suffix_rfl
termination_by ts => (ts.length, 3)

theorem clause_endsIn (ts : List Token) : EndsIn ts (clause ts) := by
  rw [clause_eq]
  split
  · exact (listClause_endsIn ts.tail _).tail
  · exact (listClause_endsIn ts.tail _).tail
  · exact (listClause_endsIn ts.tail _).tail
  · apply (terminals_endsIn ts).bind
    intro chain rest _
    exact afterTerminals_endsIn rest chain.1 chain.2
termination_by (ts.length, 2)

theorem terminals_endsIn (ts : List Token) : EndsIn ts (terminals ts) := by
  rw [terminals_eq]
  apply (terminal_endsIn ts).bind
  intro first rest hfirst
  dsimp only
  split
  · rename_i hmore
    have := terminal_length hfirst
    have := tail_length_of_atEdgeOperator hmore
    apply (terminals_endsIn rest.tail).tail.bind
    intro chain left _
    exact List.suffix_rfl
  · exact List.suffix_rfl
termination_by (ts.length, 1)

theorem terminal_endsIn (ts : List Token) : EndsIn ts (terminal ts) := by
  rw [terminal_eq]
  split
  · apply (blockHead_endsIn ts).bind
    intro name rest hhead
    have := blockHead_length hhead
    apply (clauses_endsIn rest).bind
    intro body left _
    exact List.suffix_rfl
  · exact nodeTerminal_endsIn ts
termination_by (ts.length, 0)

end

lemma graphKind_endsIn : EndsIn ts (graphKind ts) := by
  unfold graphKind
  split
  · exact List.tail_suffix ts
  · exact List.tail_suffix ts
  · exact List.suffix_rfl

theorem declaration_endsIn : EndsIn ts (declaration ts) := by
  have hstrict : (if keyword? ts = some .strict then ts.tail else ts) <:+ ts := by
    split
    · exact List.tail_suffix ts
    · exact List.suffix_rfl
  apply ((graphKind_endsIn _).mono hstrict).bind
  intro kind rest _
  apply (optionalName_endsIn rest).bind
  intro name rest _
  apply endsIn_of_expect
  intro rest _
  apply (clauses_endsIn rest).bind
  intro body rest _
  exact List.suffix_rfl

lemma declarations_refusal {r : Refusal} (h : declarations ts = .error r) : r.rest <:+ ts := by
  fun_induction declarations ts with
  | case1 => cases h
  | case2 p rest ih => exact (ih h).trans (List.suffix_cons _ _)
  | case3 token rest _ r' hr =>
    have hfirst := declaration_endsIn (token :: rest)
    rw [hr] at hfirst
    cases h
    exact hfirst
  | case4 token rest _ first unread hfirst r' hr ih =>
    have hread := declaration_endsIn (token :: rest)
    rw [hfirst] at hread
    cases h
    exact (ih hr).trans hread
  | case5 => cases h

/-- A refusal keeps a final part of the tokens of the document. -/
theorem document_refusal {r : Refusal} (h : document ts = .error r) : r.rest <:+ ts := by
  unfold document at h
  split at h
  · cases h
    exact List.nil_suffix
  · exact declarations_refusal ts h

end Parser

/-! ### Errors of sources -/

lemma isIn_of_ofTokens {cs : List Char} {tokens : Tokens} {e : SyntaxError}
    (hstop : tokens.stop.IsIn cs) (htokens : ∀ token ∈ tokens.list, token.position.IsIn cs)
    (h : Document.ofTokens tokens = .error e) : e.position.IsIn cs := by
  rw [Document.ofTokens] at h
  cases hr : Parser.document tokens.list with
  | ok document =>
    rw [hr] at h
    cases h
  | error r =>
    have hsuffix := Parser.document_refusal tokens.list hr
    rw [hr] at h
    cases h
    unfold Refusal.toSyntaxError
    cases hrest : r.rest with
    | nil => exact hstop
    | cons token rest =>
      rw [hrest] at hsuffix
      exact htokens token (hsuffix.subset List.mem_cons_self)

lemma isIn_of_ofString {source : String} {e : SyntaxError}
    (h : Document.ofString source = .error e) : e.position.IsIn source.toList := by
  rw [Document.ofString] at h
  cases ht : Tokens.ofString source with
  | error e' =>
    rw [ht] at h
    cases h
    exact Scan.isIn_of_tokensFrom Position.isBehind_start ht
  | ok tokens =>
    rw [ht] at h
    have hexact := Tokens.isExact_of_ofString ht
    refine isIn_of_ofTokens ⟨_, List.prefix_rfl, hexact.stop⟩ ?_ h
    intro token hmem
    obtain ⟨before, rest, hsource, hp⟩ := hexact.slices token hmem
    exact ⟨before, hsource ▸ List.prefix_append _ _, hp⟩

/-- The tokens of a source are its slices, at exact places and with nothing but gaps between them,
and every error names a place of the source. -/
theorem ofString_places (source : String) :
    (∀ tokens, Tokens.ofString source = .ok tokens → tokens.IsExact source) ∧
      ∀ (reader : Reader) e, reader.parse source = .error e →
        ∃ error, e = .source error ∧ error.position.IsIn source.toList := by
  refine ⟨fun tokens h => Tokens.isExact_of_ofString h, ?_⟩
  intro reader e h
  rw [Reader.parse] at h
  split at h
  · cases h
  · rename_i error herror
    cases h
    exact ⟨error, rfl, isIn_of_ofString herror⟩

/-- A line behind a hash, two comments and a name of two octets; and a literal that stays open. -/
theorem ofString_places_commented :
    (∃ tokens, Tokens.ofString "#a\n/*b*/\u00e9--c//" = .ok tokens ∧
      tokens.starts = [8, 10, 12, 15] ∧ tokens.IsExact "#a\n/*b*/\u00e9--c//") ∧
    ∃ error, Reader.parse {} "graph\x7b\n\"" = .error (.source error) ∧
      error.position = ⟨7, 2, 1, true⟩ ∧ error.position.IsIn "graph\x7b\n\"".toList := by
  have htokens : Tokens.ofString "#a\n/*b*/\u00e9--c//" =
      .ok ⟨[⟨.word .name "\u00e9", ⟨8, 2, 6, false⟩⟩, ⟨.symbol .line, ⟨10, 2, 7, false⟩⟩,
        ⟨.word .name "c", ⟨12, 2, 9, false⟩⟩], ⟨15, 2, 12, false⟩⟩ := by
    decide +kernel
  have herror : Reader.parse {} "graph\x7b\n\"" =
      .error (.source ⟨⟨7, 2, 1, true⟩, .unterminatedQuoted⟩) := by
    decide +kernel
  refine ⟨⟨_, htokens, rfl, (ofString_places _).1 _ htokens⟩, _, herror, rfl, ?_⟩
  obtain ⟨error, heq, hin⟩ := (ofString_places _).2 {} _ herror
  cases heq
  exact hin

end DotGraph
