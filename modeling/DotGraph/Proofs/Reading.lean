import DotGraph.Proofs.Words

/-!
# Reading texts

Which lexemes a text reads as, wherever it starts. The relation is built from the front of the
text: a blank is dropped, a symbol or a word puts one lexeme in front of those of the rest.
-/

namespace DotGraph

/-- The tokens with others in front of them. -/
def Tokens.prepend (ts : List Token) (tokens : Tokens) : Tokens :=
  ⟨ts ++ tokens.list, tokens.stop⟩

namespace Scan

/-! ### What is skipped -/

section Skip

variable (p start : Position) (cs : List Char)

lemma skip_end : skip .blank p [] = .ok (p, []) := by
  unfold skip
  rfl

lemma skip_end_line : skip .lineComment p [] = .ok (p, []) := by
  unfold skip
  rfl

lemma skip_newline : skip .lineComment p ('\n' :: cs) = skip .blank (p.step '\n') cs := by
  conv_lhs => unfold skip
  rfl

lemma skip_line {c : Char} (hc : c ≠ '\n') :
    skip .lineComment p (c :: cs) = skip .lineComment (p.step c) cs := by
  conv_lhs => unfold skip
  simp only [if_neg hc]

lemma skip_blockEnd : skip (.blockComment start) p ('*' :: '/' :: cs) =
    skip .blank ((p.step '*').step '/') cs := by
  conv_lhs => unfold skip
  rfl

lemma skip_block {c : Char} (hc : ∀ ds, c = '*' → cs ≠ '/' :: ds) :
    skip (.blockComment start) p (c :: cs) = skip (.blockComment start) (p.step c) cs := by
  conv_lhs => unfold skip
  split
  · exact absurd rfl (hc _ rfl)
  · rfl

lemma skip_hash (hp : p.lineStart = true) :
    skip .blank p ('#' :: cs) = skip .lineComment (p.step '#') cs := by
  have hb : Text.isBlank '#' = false := rfl
  conv_lhs => unfold skip
  simp only [hb, hp, decide_true, Bool.and_self, if_true]
  rfl

lemma skip_slashes : skip .blank p ('/' :: '/' :: cs) =
    skip .lineComment ((p.step '/').step '/') cs := by
  conv_lhs => unfold skip
  rfl

lemma skip_blockStart : skip .blank p ('/' :: '*' :: cs) =
    skip (.blockComment p) ((p.step '/').step '*') cs := by
  conv_lhs => unfold skip
  rfl

end Skip

lemma skip_blank {c : Char} (hb : Text.isBlank c = true) (p : Position) (cs : List Char) :
    skip .blank p (c :: cs) = skip .blank (p.step c) cs := by
  conv_lhs => unfold skip
  simp only [hb, if_true]

/-- Skipping stops at a character that nothing to skip starts with. -/
lemma skip_stop {p : Position} {c : Char} {cs : List Char} (hb : Text.isBlank c = false)
    (hh : (c = '#' && p.lineStart) = false) (hs : ∀ ds, c = '/' → cs ≠ '/' :: ds ∧ cs ≠ '*' :: ds) :
    skip .blank p (c :: cs) = .ok (p, c :: cs) := by
  conv_lhs => unfold skip
  simp only [hb, hh, Bool.false_eq_true, if_false]
  split
  · exact absurd rfl (hs _ rfl).1
  · exact absurd rfl (hs _ rfl).2
  · rfl

/-! ### Tokens behind what is skipped -/

lemma lexeme_error_of_comment {c : Char} (h : c = '#' ∨ c = '/') (cs : List Char) :
    lexeme c cs = .error (.unexpectedChar c) := by
  rcases h with rfl | rfl <;> rfl

/-- Skipping stops at a character that a lexeme starts with. -/
lemma skip_of_lexeme {c : Char} {cs : List Char} {r : Lexeme × List Char} (p : Position)
    (hb : Text.isBlank c = false) (hx : lexeme c cs = .ok r) :
    skip .blank p (c :: cs) = .ok (p, c :: cs) := by
  have hne : c ≠ '#' ∧ c ≠ '/' := by
    constructor <;>
    · intro hc
      rw [lexeme_error_of_comment (by simp [hc])] at hx
      simp at hx
  apply skip_stop hb
  · rw [decide_eq_false hne.1, Bool.false_and]
  · intro _ hc
    exact absurd hc hne.2

lemma not_isBlank_of_skip {gap : Gap} {p q : Position} {c : Char} {cs rest : List Char}
    (h : skip gap p cs = .ok (q, c :: rest)) : Text.isBlank c = false := by
  fun_induction skip gap p cs with
  | case1 => simp at h
  | case2 => simp at h
  | case3 _ _ _ ih => exact ih h
  | case4 _ _ _ _ _ ih => exact ih h
  | case5 _ _ ih => exact ih h
  | case6 _ _ _ _ ih => exact ih h
  | case7 _ _ _ _ ih => exact ih h
  | case8 _ _ _ _ _ ih => exact ih h
  | case9 _ _ _ _ ih => exact ih h
  | case10 _ _ _ _ ih => exact ih h
  | case11 _ _ _ _ _ hb =>
    cases h
    simpa using hb

/-- One step of the scanner, without the proof that it comes to an end. -/
lemma tokensFrom_eq (p : Position) (cs : List Char) :
    tokensFrom p cs = match skip .blank p cs with
      | .error e => .error e
      | .ok (q, []) => .ok ⟨[], q⟩
      | .ok (q, c :: unread) => match lexeme c unread with
        | .error fault => .error ⟨q, fault⟩
        | .ok (x, rest) =>
          (tokensFrom (q.advance x.spelling.toList) rest).map (Tokens.prepend [⟨x, q⟩]) := by
  conv_lhs => unfold tokensFrom
  cases hs : skip .blank p cs with
  | error e => rfl
  | ok r =>
    obtain ⟨q, left⟩ := r
    cases left with
    | nil => rfl
    | cons c unread =>
      dsimp only
      cases hx : lexeme c unread with
      | error fault => rfl
      | ok r =>
        obtain ⟨x, rest⟩ := r
        dsimp only
        cases tokensFrom (q.advance x.spelling.toList) rest <;> rfl

lemma tokensFrom_nil (p : Position) : tokensFrom p [] = .ok ⟨[], p⟩ := by
  rw [tokensFrom_eq, skip_end]

lemma tokensFrom_blank {c : Char} (hb : Text.isBlank c = true) (p : Position) (cs : List Char) :
    tokensFrom p (c :: cs) = tokensFrom (p.step c) cs := by
  rw [tokensFrom_eq, skip_blank hb, ← tokensFrom_eq]

lemma tokensFrom_lexeme {c : Char} {cs rest : List Char} {x : Lexeme} {tokens : Tokens}
    {p : Position} (hb : Text.isBlank c = false) (hx : lexeme c cs = .ok (x, rest))
    (h : tokensFrom (p.advance x.spelling.toList) rest = .ok tokens) :
    tokensFrom p (c :: cs) = .ok ⟨⟨x, p⟩ :: tokens.list, tokens.stop⟩ := by
  rw [tokensFrom_eq, skip_of_lexeme p hb hx]
  simp only [hx, h]
  rfl

/-- A text that has tokens has none, or a first lexeme behind what is skipped. -/
lemma tokensFrom_eq_ok {p : Position} {cs : List Char} {tokens : Tokens}
    (h : tokensFrom p cs = .ok tokens) :
    (∃ q, skip .blank p cs = .ok (q, []) ∧ tokens = ⟨[], q⟩) ∨
      ∃ q c unread x rest others, skip .blank p cs = .ok (q, c :: unread) ∧
        lexeme c unread = .ok (x, rest) ∧
        tokensFrom (q.advance x.spelling.toList) rest = .ok others ∧
        tokens = ⟨⟨x, q⟩ :: others.list, others.stop⟩ := by
  rw [tokensFrom] at h
  split at h
  · simp at h
  · rename_i q hs
    cases h
    exact .inl ⟨q, hs, rfl⟩
  · rename_i q c unread hs
    split at h
    · simp at h
    · rename_i x rest hx
      split at h
      · simp at h
      · rename_i others ho
        cases h
        exact .inr ⟨q, c, unread, x, rest, others, hs, hx, ho, rfl⟩

/-- A text that is one word, from its first character to its last. -/
def IsWord (kind : WordKind) (text : String) : Prop :=
  ∃ c cs, text.toList = c :: cs ∧ Text.isBlank c = false ∧ WordAt kind c cs (c :: cs) []

/-- The words of a text are words on their own. -/
theorem isWord_of_tokensFrom {p : Position} {cs : List Char} {tokens : Tokens}
    (h : tokensFrom p cs = .ok tokens) {token : Token} (ht : token ∈ tokens.list)
    {kind : WordKind} {text : String} (hx : token.lexeme = .word kind text) :
    IsWord kind text := by
  induction hn : cs.length using Nat.strongRecOn generalizing p cs tokens with
  | ind n ih =>
    rcases tokensFrom_eq_ok h with ⟨q, -, rfl⟩ | ⟨q, c, unread, x, rest, others, hs, hl, ho, rfl⟩
    · simp at ht
    · rcases List.mem_cons.1 ht with rfl | ht
      · cases hx
        obtain ⟨b, hb, -, hw⟩ := (wordAt_of_lexeme hl).again ends_nil
        rw [List.append_nil, hb] at hw
        exact ⟨c, b, hb, not_isBlank_of_skip hs, hw⟩
      · obtain ⟨gone, rfl, -⟩ := skip_eq_ok hs
        have hlen := lexeme_length hl
        simp only [List.length_append, List.length_cons] at hn
        exact ih rest.length (by omega) ho ht rfl

lemma IsWord.wordAt {kind : WordKind} {text : String} (h : IsWord kind text) {more : List Char}
    (hm : Ends more) : ∃ c cs, text.toList = c :: cs ∧ Text.isBlank c = false ∧
      WordAt kind c (cs ++ more) text.toList more := by
  obtain ⟨c, cs, ht, hb, hw⟩ := h
  obtain ⟨b, hcb, -, hmore⟩ := hw.again hm
  cases hcb
  exact ⟨c, cs, ht, hb, ht ▸ hmore⟩

/-- A text that is one word has one token, which starts at its first character. -/
lemma IsWord.tokens {kind : WordKind} {text : String} (h : IsWord kind text) :
    Tokens.ofString text = .ok ⟨[⟨.word kind text, {}⟩], Position.advance {} text.toList⟩ := by
  obtain ⟨c, cs, ht, hb, hw⟩ := h.wordAt ends_nil
  rw [List.append_nil] at hw
  conv_lhs => rw [Tokens.ofString, ht]
  exact tokensFrom_lexeme hb (lexeme_word_iff.2 hw) (tokensFrom_nil _)

/-- A text is a word when it has one token, which is the whole text. -/
theorem isWord_iff {kind : WordKind} {text : String} :
    IsWord kind text ↔ ∃ p q, Tokens.ofString text = .ok ⟨[⟨.word kind text, p⟩], q⟩ := by
  constructor
  · intro h
    exact ⟨_, _, h.tokens⟩
  · rintro ⟨p, q, h⟩
    exact isWord_of_tokensFrom h (List.mem_singleton_self _) rfl

/-- The lexemes that a text reads as. -/
def Reads (cs : List Char) (xs : List Lexeme) : Prop :=
  ∀ p, ∃ tokens, tokensFrom p cs = .ok tokens ∧ tokens.list.map Token.lexeme = xs

lemma Reads.unique {cs : List Char} {xs ys : List Lexeme} (hx : Reads cs xs) (hy : Reads cs ys) :
    xs = ys := by
  obtain ⟨tokens, ht, rfl⟩ := hx {}
  obtain ⟨tokens', ht', rfl⟩ := hy {}
  rw [ht] at ht'
  rw [Except.ok.inj ht']

lemma reads_nil : Reads [] [] := fun p => ⟨⟨[], p⟩, tokensFrom_nil p, rfl⟩

/-- What reads in front of anything reads when it stands alone. -/
lemma reads_of_front {cs : List Char} {xs : List Lexeme}
    (h : ∀ rest ys, Reads rest ys → Reads (cs ++ rest) (xs ++ ys)) : Reads cs xs := by
  have hreads := h [] [] reads_nil
  rwa [List.append_nil, List.append_nil] at hreads

lemma Reads.lexeme {c : Char} {cs rest : List Char} {x : Lexeme} {xs : List Lexeme}
    (hb : Text.isBlank c = false) (hx : lexeme c cs = .ok (x, rest)) (h : Reads rest xs) :
    Reads (c :: cs) (x :: xs) := by
  intro p
  obtain ⟨tokens, ht, rfl⟩ := h (p.advance x.spelling.toList)
  exact ⟨_, tokensFrom_lexeme hb hx ht, rfl⟩

lemma Reads.blank {c : Char} {cs : List Char} {xs : List Lexeme} (hb : Text.isBlank c = true)
    (h : Reads cs xs) : Reads (c :: cs) xs := by
  intro p
  rw [tokensFrom_blank hb]
  exact h (p.step c)

lemma Reads.symbol {c : Char} {s : Symbol} {cs : List Char} {xs : List Lexeme}
    (hs : symbol? c = some s) (h : Reads cs xs) : Reads (c :: cs) (.symbol s :: xs) := by
  have hb : Text.isBlank c = false := by
    unfold symbol? at hs
    split at hs <;> first | rfl | simp at hs
  refine .lexeme hb ?_ h
  unfold Scan.lexeme
  rw [hs]

lemma Reads.arrow {cs : List Char} {xs : List Lexeme} (h : Reads cs xs) :
    Reads ('-' :: '>' :: cs) (.symbol .arrow :: xs) :=
  .lexeme rfl rfl h

lemma Reads.line {cs : List Char} {xs : List Lexeme} (h : Reads cs xs) :
    Reads ('-' :: '-' :: cs) (.symbol .line :: xs) :=
  .lexeme rfl rfl h

lemma Reads.word {kind : WordKind} {text : String} {cs : List Char} {xs : List Lexeme}
    (hw : IsWord kind text) (hc : Ends cs) (h : Reads cs xs) :
    Reads (text.toList ++ cs) (.word kind text :: xs) := by
  obtain ⟨c, rest, ht, hb, hword⟩ := hw.wordAt hc
  rw [ht]
  exact .lexeme hb (lexeme_word_iff.2 hword) h

end Scan

end DotGraph
