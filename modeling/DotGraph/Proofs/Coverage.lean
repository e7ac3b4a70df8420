import DotGraph.Proofs.Reading

/-!
# What tokens cover

The tokens of a source are slices of it, in their order. In front of them, between them and behind
the last stand gaps: blanks, comments and lines behind a hash. What a gap may hold is said from
the source around it and not from the way it is skipped. Positions count the octets of the source
in front of them, its newlines, and the characters of its last line.
-/

namespace DotGraph

/-! ### Places in a source -/

def octetCount (cs : List Char) : Nat := (String.ofList cs).utf8ByteSize

/-- The characters behind the last newline. -/
def lastLine (cs : List Char) : List Char := (cs.reverse.takeWhile (· ≠ '\n')).reverse

lemma octetCount_append (as bs : List Char) :
    octetCount (as ++ bs) = octetCount as + octetCount bs := by
  rw [octetCount, String.ofList_append, String.utf8ByteSize_append]
  rfl

lemma octetCount_singleton (c : Char) : octetCount [c] = c.utf8Size := by
  rw [octetCount, ← String.singleton_eq_ofList, String.utf8ByteSize_singleton]

lemma octetCount_pos {cs : List Char} (h : cs ≠ []) : 0 < octetCount cs := by
  obtain ⟨c, cs, rfl⟩ := List.exists_cons_of_ne_nil h
  have hsplit := octetCount_append [c] cs
  rw [octetCount_singleton] at hsplit
  have hpos := c.utf8Size_pos
  rw [← List.singleton_append]
  omega

lemma lastLine_concat (cs : List Char) (c : Char) :
    lastLine (cs ++ [c]) = if c = '\n' then [] else lastLine cs ++ [c] := by
  rw [lastLine, List.reverse_append, List.reverse_singleton, List.singleton_append]
  by_cases hc : c = '\n'
  · rw [if_pos hc, List.takeWhile_cons_of_neg (by simpa using hc), List.reverse_nil]
  · rw [if_neg hc, List.takeWhile_cons_of_pos (by simpa using hc), List.reverse_cons]
    rfl

namespace Position

/-- The place behind the given characters of a source. -/
structure IsBehind (p : Position) (before : List Char) : Prop where
  offset : p.offset = octetCount before
  line : p.line = 1 + before.count '\n'
  column : p.column = 1 + (lastLine before).length
  lineStart : p.lineStart = (lastLine before).all Text.isBlank

lemma isBehind_start : IsBehind {} [] := ⟨rfl, rfl, rfl, rfl⟩

variable {p : Position} {before : List Char}

lemma IsBehind.step (h : p.IsBehind before) (c : Char) : (p.step c).IsBehind (before ++ [c]) := by
  have hoffset : octetCount (before ++ [c]) = p.offset + c.utf8Size := by
    rw [octetCount_append, octetCount_singleton, h.offset]
  rw [Position.step]
  by_cases hc : c = '\n'
  · subst hc
    refine ⟨hoffset.symm, ?_, ?_, ?_⟩
    · simp [h.line, Nat.add_assoc]
    · simp [lastLine_concat]
    · simp [lastLine_concat]
  · rw [if_neg hc]
    refine ⟨hoffset.symm, ?_, ?_, ?_⟩
    · simp [h.line, hc]
    · simp [lastLine_concat, hc, h.column, Nat.add_assoc]
    · simp [lastLine_concat, hc, h.lineStart]

lemma IsBehind.advance (h : p.IsBehind before) (cs : List Char) :
    (p.advance cs).IsBehind (before ++ cs) := by
  induction cs generalizing p before with
  | nil =>
    rw [List.append_nil]
    exact h
  | cons c cs ih =>
    rw [List.append_cons]
    exact ih (h.step c)

end Position

namespace Scan

/-! ### Gaps -/

/-- A line ends in front of the text, or the source does. -/
def EndsLine (cs : List Char) : Prop := ∀ c ∈ cs.head?, c = '\n'

/-- What may stand between tokens, from the characters before it and those behind it. A comment
runs to the end of its line, or to the first mark that closes it. A hash counts where nothing but
blanks stands before it on its line. -/
inductive IsGap : List Char → List Char → List Char → Prop
  | nil {before rest : List Char} : IsGap before [] rest
  | blank {c : Char} {before gap rest : List Char} (hb : Text.isBlank c = true)
      (h : IsGap (before ++ [c]) gap rest) : IsGap before (c :: gap) rest
  | line {body before gap rest : List Char} (hbody : '\n' ∉ body) (hend : EndsLine (gap ++ rest))
      (h : IsGap (before ++ '/' :: '/' :: body) gap rest) :
      IsGap before ('/' :: '/' :: (body ++ gap)) rest
  | hash {body before gap rest : List Char} (hl : ∀ c ∈ lastLine before, Text.isBlank c = true)
      (hbody : '\n' ∉ body) (hend : EndsLine (gap ++ rest))
      (h : IsGap (before ++ '#' :: body) gap rest) : IsGap before ('#' :: (body ++ gap)) rest
  | block {body before gap rest : List Char} (hbody : ¬ ['*', '/'] <:+: body ++ ['*'])
      (h : IsGap (before ++ '/' :: '*' :: (body ++ ['*', '/'])) gap rest) :
      IsGap before ('/' :: '*' :: (body ++ '*' :: '/' :: gap)) rest

/-- What is left of a gap where a comment has been opened already. -/
def Gap.IsRest (before rest : List Char) : Gap → List Char → Prop
  | .blank, gone => IsGap before gone rest
  | .lineComment, gone => ∃ body gap, gone = body ++ gap ∧ '\n' ∉ body ∧ EndsLine (gap ++ rest) ∧
      IsGap (before ++ body) gap rest
  | .blockComment _, gone => ∃ body gap, gone = body ++ '*' :: '/' :: gap ∧
      ¬ ['*', '/'] <:+: body ++ ['*'] ∧ IsGap (before ++ (body ++ ['*', '/'])) gap rest

section Rest

variable {before rest gone : List Char} {c : Char}

lemma Gap.IsRest.line_cons (hc : c ≠ '\n')
    (h : Gap.lineComment.IsRest (before ++ [c]) rest gone) :
    Gap.lineComment.IsRest before rest (c :: gone) := by
  obtain ⟨body, gap, rfl, hbody, hend, hgap⟩ := h
  refine ⟨c :: body, gap, rfl, ?_, hend, by simpa using hgap⟩
  rw [List.mem_cons, not_or]
  exact ⟨hc.symm, hbody⟩

lemma Gap.IsRest.block_cons {start : Position}
    (hc : ∀ cs, c = '*' → gone ++ rest = '/' :: cs → False)
    (h : (Gap.blockComment start).IsRest (before ++ [c]) rest gone) :
    (Gap.blockComment start).IsRest before rest (c :: gone) := by
  obtain ⟨body, gap, rfl, hbody, hgap⟩ := h
  refine ⟨c :: body, gap, rfl, ?_, by simpa using hgap⟩
  -- the mark would have to start at `c`, where it was looked for
  rw [List.cons_append, List.infix_cons_iff, not_or]
  refine ⟨?_, hbody⟩
  intro hmark
  cases body with
  | nil => simp at hmark
  | cons d body =>
    obtain ⟨rfl, rfl⟩ : '*' = c ∧ '/' = d := by simpa using hmark
    exact hc _ rfl rfl

lemma IsGap.of_slashes (h : Gap.lineComment.IsRest (before ++ ['/', '/']) rest gone) :
    IsGap before ('/' :: '/' :: gone) rest := by
  obtain ⟨body, gap, rfl, hbody, hend, hgap⟩ := h
  exact .line hbody hend (by simpa using hgap)

lemma IsGap.of_hash (hl : ∀ c ∈ lastLine before, Text.isBlank c = true)
    (h : Gap.lineComment.IsRest (before ++ ['#']) rest gone) :
    IsGap before ('#' :: gone) rest := by
  obtain ⟨body, gap, rfl, hbody, hend, hgap⟩ := h
  exact .hash hl hbody hend (by simpa using hgap)

lemma IsGap.of_blockStart {start : Position}
    (h : (Gap.blockComment start).IsRest (before ++ ['/', '*']) rest gone) :
    IsGap before ('/' :: '*' :: gone) rest := by
  obtain ⟨body, gap, rfl, hbody, hgap⟩ := h
  exact .block hbody (by simpa using hgap)

end Rest

theorem isRest_of_skip {gap : Gap} {p q : Position} {before cs rest : List Char}
    (hp : p.IsBehind before) (h : skip gap p cs = .ok (q, rest)) :
    ∃ gone, cs = gone ++ rest ∧ q.IsBehind (before ++ gone) ∧ gap.IsRest before rest gone := by
  fun_induction skip gap p cs generalizing before with
  | case1 => cases h
  | case2 gap p hgap =>
    cases h
    refine ⟨[], rfl, by rwa [List.append_nil], ?_⟩
    cases gap with
    | blank => exact .nil
    | lineComment => exact ⟨[], [], rfl, List.not_mem_nil, by simp [EndsLine], .nil⟩
    | blockComment start => exact absurd rfl (hgap start)
  | case3 start p cs ih =>
    obtain ⟨gone, rfl, hq, hgone⟩ := ih ((hp.step '*').step '/') h
    refine ⟨'*' :: '/' :: gone, rfl, by simpa using hq, [], gone, rfl, by decide, ?_⟩
    simpa [Gap.IsRest] using hgone
  | case4 start p c cs hc ih =>
    obtain ⟨gone, rfl, hq, hgone⟩ := ih (hp.step c) h
    exact ⟨c :: gone, rfl, by simpa using hq, hgone.block_cons hc⟩
  | case5 p cs ih =>
    obtain ⟨gone, rfl, hq, hgone⟩ := ih (hp.step '\n') h
    refine ⟨'\n' :: gone, rfl, by simpa using hq, [], '\n' :: gone, rfl, List.not_mem_nil, ?_, ?_⟩
    · simp [EndsLine]
    · rw [List.append_nil]
      exact .blank rfl hgone
  | case6 p c cs hc ih =>
    obtain ⟨gone, rfl, hq, hgone⟩ := ih (hp.step c) h
    exact ⟨c :: gone, rfl, by simpa using hq, hgone.line_cons hc⟩
  | case7 p c cs hb ih =>
    obtain ⟨gone, rfl, hq, hgone⟩ := ih (hp.step c) h
    exact ⟨c :: gone, rfl, by simpa using hq, .blank hb hgone⟩
  | case8 p c cs hb hc ih =>
    rw [Bool.and_eq_true, decide_eq_true_eq, hp.lineStart, List.all_eq_true] at hc
    obtain ⟨rfl, hl⟩ := hc
    obtain ⟨gone, rfl, hq, hgone⟩ := ih (hp.step '#') h
    exact ⟨'#' :: gone, rfl, by simpa using hq, .of_hash hl hgone⟩
  | case9 p cs hb hc ih =>
    obtain ⟨gone, rfl, hq, hgone⟩ := ih ((hp.step '/').step '/') h
    exact ⟨'/' :: '/' :: gone, rfl, by simpa using hq, .of_slashes (by simpa using hgone)⟩
  | case10 p cs hb hc ih =>
    obtain ⟨gone, rfl, hq, hgone⟩ := ih ((hp.step '/').step '*') h
    exact ⟨'/' :: '*' :: gone, rfl, by simpa using hq, .of_blockStart (by simpa using hgone)⟩
  | case11 p c cs hs ht hb hc =>
    cases h
    exact ⟨[], rfl, by rwa [List.append_nil], .nil⟩

/-! ### Tokens between gaps -/

/-- The tokens and the place of the end cover a text, given what stands before it. -/
inductive Covers : List Char → List Char → List Token → Position → Prop
  | stop {before gap : List Char} {p : Position} (hg : IsGap before gap [])
      (hp : p.IsBehind (before ++ gap)) : Covers before gap [] p
  | token {before gap rest : List Char} {x : Lexeme} {p stop : Position} {ts : List Token}
      (hg : IsGap before gap (x.spelling.toList ++ rest)) (hp : p.IsBehind (before ++ gap))
      (hx : x.spelling.toList ≠ [])
      (h : Covers (before ++ (gap ++ x.spelling.toList)) rest ts stop) :
      Covers before (gap ++ (x.spelling.toList ++ rest)) (⟨x, p⟩ :: ts) stop

theorem covers_of_tokensFrom {p : Position} {before cs : List Char} {tokens : Tokens}
    (hp : p.IsBehind before) (h : tokensFrom p cs = .ok tokens) :
    Covers before cs tokens.list tokens.stop := by
  fun_induction tokensFrom p cs generalizing before tokens with
  | case1 => cases h
  | case2 p cs q hs =>
    cases h
    obtain ⟨gone, rfl, hq, hgone⟩ := isRest_of_skip hp hs
    rw [List.append_nil]
    exact .stop hgone hq
  | case3 => cases h
  | case4 => cases h
  | case5 p cs q c unread hs x rest hx others ho ih =>
    cases h
    obtain ⟨gone, rfl, hq, hgone⟩ := isRest_of_skip hp hs
    have hrest := ih (hq.advance x.spelling.toList) ho
    rw [← lexeme_append hx] at hgone ⊢
    rw [List.append_assoc] at hrest
    exact .token hgone hq (lexeme_spelling_ne_nil hx) hrest

end Scan

/-! ### Exact tokens -/

def Token.stopOffset (t : Token) : Nat := t.position.offset + octetCount t.lexeme.spelling.toList

namespace Tokens

/-- Where the tokens start, and where the source ends. -/
def starts (tokens : Tokens) : List Nat :=
  tokens.list.map (·.position.offset) ++ [tokens.stop.offset]

/-- Where the source starts, and where the tokens end. -/
def stops (tokens : Tokens) : List Nat := 0 :: tokens.list.map Token.stopOffset

/-- The tokens say what the source holds at which place, and leave out nothing but gaps. -/
structure IsExact (source : String) (tokens : Tokens) : Prop where
  stop : tokens.stop.IsBehind source.toList
  ascending : tokens.starts.Pairwise (· < ·)
  slices : ∀ token ∈ tokens.list, ∃ before rest,
    source.toList = before ++ (token.lexeme.spelling.toList ++ rest) ∧
      token.position.IsBehind before
  gaps : ∀ e ∈ tokens.stops.zip tokens.starts, ∃ before gap rest,
    source.toList = before ++ (gap ++ rest) ∧ octetCount before = e.1 ∧
      octetCount (before ++ gap) = e.2 ∧ Scan.IsGap before gap rest

end Tokens

namespace Scan.Covers

variable {before cs : List Char} {ts : List Token} {stop : Position}

lemma stop_isBehind (h : Covers before cs ts stop) : stop.IsBehind (before ++ cs) := by
  induction h with
  | stop hg hp => exact hp
  | token hg hp hx h ih => simpa using ih

lemma le_offset (h : Covers before cs ts stop) :
    (∀ token ∈ ts, octetCount before ≤ token.position.offset) ∧
      octetCount before ≤ stop.offset := by
  induction h with
  | stop hg hp =>
    rw [hp.offset, octetCount_append]
    simp
  | @token before gap rest x p stop ts hg hp hx h ih =>
    have hoffset := hp.offset
    rw [octetCount_append] at hoffset
    rw [octetCount_append, octetCount_append] at ih
    refine ⟨?_, by omega⟩
    intro t ht
    rcases List.mem_cons.1 ht with rfl | ht
    · dsimp only
      omega
    · have := ih.1 t ht
      omega

lemma ascending (h : Covers before cs ts stop) : (Tokens.starts ⟨ts, stop⟩).Pairwise (· < ·) := by
  induction h with
  | stop hg hp => exact List.pairwise_singleton _ _
  | @token before gap rest x p stop ts hg hp hx h ih =>
    rw [Tokens.starts, List.map_cons, List.cons_append, List.pairwise_cons]
    refine ⟨?_, ih⟩
    have hle := h.le_offset
    have hpos := octetCount_pos hx
    have hoffset := hp.offset
    rw [← List.append_assoc, octetCount_append, ← hoffset] at hle
    intro n hn
    rcases List.mem_append.1 hn with hn | hn
    · obtain ⟨t, ht, rfl⟩ := List.mem_map.1 hn
      have := hle.1 t ht
      dsimp only
      omega
    · rw [List.mem_singleton.1 hn]
      dsimp only
      omega

lemma slices (h : Covers before cs ts stop) : ∀ token ∈ ts, ∃ front rest,
    before ++ cs = front ++ (token.lexeme.spelling.toList ++ rest) ∧
      token.position.IsBehind front := by
  induction h with
  | stop hg hp => simp
  | @token before gap rest x p stop ts hg hp hx h ih =>
    intro t ht
    rcases List.mem_cons.1 ht with rfl | ht
    · exact ⟨before ++ gap, rest, by simp, hp⟩
    · simpa using ih t ht

lemma gaps (h : Covers before cs ts stop) :
    ∀ e ∈ (octetCount before :: ts.map Token.stopOffset).zip (Tokens.starts ⟨ts, stop⟩),
      ∃ front gap rest, before ++ cs = front ++ (gap ++ rest) ∧ octetCount front = e.1 ∧
        octetCount (front ++ gap) = e.2 ∧ IsGap front gap rest := by
  induction h with
  | @stop before gap p hg hp =>
    intro e he
    rw [List.mem_singleton.1 he]
    exact ⟨before, gap, [], by simp, rfl, hp.offset.symm, hg⟩
  | @token before gap rest x p stop ts hg hp hx h ih =>
    intro e he
    have hstop : Token.stopOffset ⟨x, p⟩ = octetCount (before ++ (gap ++ x.spelling.toList)) := by
      rw [← List.append_assoc, octetCount_append, ← hp.offset]
      rfl
    rw [← hstop] at ih
    rcases List.mem_cons.1 he with rfl | he
    · exact ⟨before, gap, x.spelling.toList ++ rest, rfl, rfl, hp.offset.symm, hg⟩
    · simpa using ih e he

end Scan.Covers

theorem Tokens.isExact_of_ofString {source : String} {tokens : Tokens}
    (h : Tokens.ofString source = .ok tokens) : tokens.IsExact source := by
  have hcovers := Scan.covers_of_tokensFrom Position.isBehind_start h
  refine ⟨hcovers.stop_isBehind, hcovers.ascending, hcovers.slices, ?_⟩
  exact hcovers.gaps

end DotGraph
