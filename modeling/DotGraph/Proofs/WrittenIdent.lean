import DotGraph.Proofs.CanonicalIdent

/-!
# Written identifiers

Which identifiers are one token where they are written. Text that is quoted always is, and so are
numerals. A text that is taken as it stands is one token if it is sealed: no quote and no bracket
inside a literal closes it early, and no blank stands in front of a name.
-/

namespace DotGraph

open Scan

/-- The text is one token from its first character to its last, and the token is an identifier. -/
def IsIdentText (text : String) : Prop :=
  ∃ kind stop, Tokens.ofString text = .ok ⟨[⟨.word kind text, {}⟩], stop⟩ ∧
    (Lexeme.word kind text).keyword? = none

lemma isIdentText_iff {text : String} :
    IsIdentText text ↔ ∃ kind, IsWord kind text ∧ (Lexeme.word kind text).keyword? = none := by
  constructor
  · rintro ⟨kind, stop, ht, hk⟩
    exact ⟨kind, isWord_iff.2 ⟨_, _, ht⟩, hk⟩
  · rintro ⟨kind, hw, hk⟩
    exact ⟨kind, _, hw.tokens, hk⟩

lemma not_isIdentText_of_lexemes {text : String} (xs : List Lexeme)
    (h : (Tokens.ofString text).map (fun tokens => tokens.list.map Token.lexeme) = .ok xs)
    (hx : ∀ kind, xs ≠ [.word kind text]) : ¬ IsIdentText text := by
  rintro ⟨kind, stop, ht, -⟩
  rw [ht] at h
  exact hx kind (Except.ok.inj h).symm

/-! ### Quoted text -/

/-- Escaped text is the body of a literal, also where a backslash was left open in front of it. -/
theorem isQuotedBody_escape (escaping : Bool) (cs : List Char) :
    IsQuotedBody ((if escaping then ['\\'] else []) ++ Ident.escape escaping cs) := by
  induction cs generalizing escaping with
  | nil =>
    cases escaping with
    | false => exact .nil
    | true => exact .escaped '\\' .nil
  | cons c cs ih =>
    have hplain : IsQuotedBody (Ident.escape false cs) := ih false
    have hopen : IsQuotedBody ('\\' :: Ident.escape true cs) := ih true
    cases escaping with
    | false =>
      by_cases hq : c = '"'
      · subst hq
        exact .escaped '"' hplain
      by_cases hn : c = '\n'
      · subst hn
        exact .escaped 'n' hplain
      by_cases hb : c = '\\'
      · subst hb
        exact hopen
      · have hopens : (c == '\\') = false := by simpa using hb
        have hescape : Ident.escape false (c :: cs) = c :: Ident.escape false cs := by
          simp [Ident.escape, hq, hn, hopens]
        rw [hescape]
        exact .char hq hb hplain
    | true =>
      by_cases hn : c = '\n'
      · subst hn
        exact .escaped '\\' (.char (by decide) (by decide) hplain)
      · have hescape : Ident.escape true (c :: cs) = c :: Ident.escape false cs := by
          simp [Ident.escape, hn]
        rw [hescape]
        exact .escaped c hplain

lemma isWord_quote (text : String) : IsWord .quoted (Ident.quote text).text := by
  refine isWord_quoted_iff.2 ⟨Ident.escape false text.toList, isQuotedBody_escape false _, ?_⟩
  rw [Ident.quote, String.toList_ofList]

/-! ### Angle brackets -/

/-- Each bracket that closes has one before it that it closes, and each one that opens is closed. -/
def IsHtmlBody (cs : List Char) : Prop :=
  (∀ as, as <+: cs → as.count '>' ≤ as.count '<') ∧ cs.count '>' = cs.count '<'

lemma forall_prefix_cons_iff {P : List Char → Prop} {c : Char} {cs : List Char} :
    (∀ as, as <+: c :: cs → P as) ↔ P [] ∧ ∀ as, as <+: cs → P (c :: as) := by
  constructor
  · intro h
    exact ⟨h [] List.nil_prefix, fun as has => h _ (List.prefix_cons_iff.2 (.inr ⟨as, rfl, has⟩))⟩
  · rintro ⟨hnil, hcons⟩ as has
    rcases List.prefix_cons_iff.1 has with rfl | ⟨t, rfl, ht⟩
    · exact hnil
    · exact hcons t ht

/-- A literal with `depth` inner brackets open ends where the brackets counted so far say so. -/
theorem isHtmlTail_concat_iff {depth : Nat} {cs : List Char} :
    IsHtmlTail depth (cs ++ ['>']) ↔
      (∀ as, as <+: cs → as.count '>' ≤ depth + as.count '<') ∧
        cs.count '>' = depth + cs.count '<' := by
  induction cs generalizing depth with
  | nil =>
    cases depth with
    | zero => simp [isHtmlTail_last_iff]
    | succ depth =>
      rw [List.nil_append, isHtmlTail_close_iff]
      simp [IsHtmlTail, htmlTail]
  | cons c cs ih =>
    rw [forall_prefix_cons_iff, List.cons_append]
    by_cases ho : c = '<'
    · subst ho
      rw [isHtmlTail_open_iff, ih]
      simp [Nat.add_assoc, Nat.add_comm 1]
    by_cases hc : c = '>'
    · subst hc
      cases depth with
      | zero =>
        -- the literal ends at this bracket, although more follows
        rw [isHtmlTail_last_iff]
        constructor
        · intro h
          simp at h
        · rintro ⟨⟨-, hcount⟩, -⟩
          have hfirst := hcount [] List.nil_prefix
          simp at hfirst
      | succ depth =>
        rw [isHtmlTail_close_iff, ih]
        simp [Nat.add_right_comm depth 1]
    · rw [isHtmlTail_char_iff ho hc, ih]
      simp [ho, hc]

lemma isWord_html_iff_body {text : String} {body : List Char}
    (ht : text.toList = '<' :: (body ++ ['>'])) : IsWord .html text ↔ IsHtmlBody body := by
  have htail : IsWord .html text ↔ IsHtmlTail 0 (body ++ ['>']) := by
    rw [isWord_html_iff, ht]
    simp
  rw [htail, isHtmlTail_concat_iff, IsHtmlBody]
  simp

/-! ### Bare words -/

namespace Scan

lemma IsUnsigned.head {c : Char} {cs : List Char} (h : IsUnsigned (c :: cs))
    (hp : c :: cs ≠ ['.']) : c.isDigit = true ∨ c = '.' ∧ cs.head?.any Char.isDigit = true := by
  generalize hds : c :: cs = ds at h
  cases h with
  | whole hd => exact .inl (hd c (hds ▸ List.mem_cons_self))
  | @point as es hd he =>
    cases as with
    | nil =>
      obtain ⟨rfl, rfl⟩ := List.cons.inj hds
      cases cs with
      | nil => exact absurd rfl hp
      | cons e es => exact .inr ⟨rfl, he e List.mem_cons_self⟩
    | cons a as =>
      obtain ⟨rfl, -⟩ := List.cons.inj hds
      exact .inl (hd c List.mem_cons_self)

end Scan

namespace Ident

/-- What follows the sign of a numeral is a number with a digit. -/
lemma isUnsigned_of_isNumeralText {ds : List Char} (h : isNumeralText ('-' :: ds) = true) :
    IsUnsigned ds ∧ ds ≠ [] ∧ ds ≠ ['.'] := by
  have hsplit : ds.takeWhile (· != '.') ++ ds.dropWhile (· != '.') = ds :=
    List.takeWhile_append_dropWhile
  simp only [isNumeralText] at h
  cases hdrop : ds.dropWhile (· != '.') with
  | nil =>
    rw [hdrop, List.append_nil] at hsplit
    simp only [hdrop, hsplit, Bool.and_eq_true, List.all_eq_true, Bool.not_eq_true',
      List.isEmpty_eq_false_iff] at h
    refine ⟨.whole h.2, h.1, ?_⟩
    rintro rfl
    exact absurd (h.2 '.' List.mem_cons_self) (by decide)
  | cons p fraction =>
    have hpoint : (p != '.') = false := head_dropWhile (· != '.') ds p (by rw [hdrop]; rfl)
    have hp : p = '.' := by simpa using hpoint
    subst hp
    rw [hdrop] at hsplit
    simp only [hdrop, Bool.and_eq_true, List.all_eq_true] at h
    rw [← hsplit]
    refine ⟨.point h.1.1 h.1.2, by simp, ?_⟩
    intro hnone
    have hboth : ds.takeWhile (· != '.') = [] ∧ fraction = [] := by
      cases hw : ds.takeWhile (· != '.') with
      | nil => simpa [hw] using hnone
      | cons => simp [hw] at hnone
    simp [hboth] at h

/-- A numeral is one token. -/
lemma isWord_of_isNumeral {x : Ident} (h : x.isNumeral = true) : IsWord .numeral x.text := by
  rw [isNumeral] at h
  by_cases hsign : x.text.toList.head? = some '-'
  · obtain ⟨ds, ht⟩ := List.head?_eq_some_iff.1 hsign
    rw [ht] at h
    obtain ⟨hu, hne, hp⟩ := isUnsigned_of_isNumeralText h
    obtain ⟨d, es, rfl⟩ := List.exists_cons_of_ne_nil hne
    have hcut : unsignedNumeral (d :: es) = (d :: es, []) := by
      simpa using unsignedNumeral_extend hu ends_nil
    exact ⟨'-', d :: es, ht, rfl, .negative ((hu.head hp).imp id And.left) hcut⟩
  · rw [isNumeralText_unsigned hsign] at h
    obtain ⟨hu, hne, hp⟩ := isUnsigned_of_isNumeralText h
    obtain ⟨d, es, ht⟩ := List.exists_cons_of_ne_nil hne
    rw [ht] at hu hp
    have hcut : unsignedNumeral (d :: es) = (d :: es, []) := by
      simpa using unsignedNumeral_extend hu ends_nil
    have hblank : Text.isBlank d = false := by
      rcases hu.head hp with hd | ⟨rfl, -⟩
      · exact not_isBlank_of_isDigit hd
      · rfl
    exact ⟨d, es, ht, hblank, .numeral (hu.head hp) hcut⟩

/-- A bare word is one token unless a blank stands at its front. -/
lemma isWord_of_isBare {x : Ident} (h : x.isBare = true)
    (hb : ∀ c ∈ x.text.toList.head?, Text.isBlank c = false) :
    ∃ kind, (kind = .name ∨ kind = .numeral) ∧ IsWord kind x.text := by
  rw [isBare, Bool.or_eq_true] at h
  rcases h with h | h
  · cases ht : x.text.toList with
    | nil =>
      rw [ht, isNameText] at h
      exact absurd h Bool.false_ne_true
    | cons c cs =>
      rw [ht, isNameText, Bool.and_eq_true, List.all_eq_true] at h
      have hw := isWord_name (hb c (by rw [ht]; rfl)) h.1 h.2
      rw [← ht, String.ofList_toList] at hw
      exact ⟨.name, .inl rfl, hw⟩
  · exact ⟨.numeral, .inr rfl, isWord_of_isNumeral h⟩

/-! ### Sealed identifiers -/

/-- Nothing in the text ends it early where it is taken as it stands. -/
structure IsSealed (x : Ident) : Prop where
  quoted : x.isQuoted = true → ∃ body, x.text.toList = '"' :: (body ++ ['"']) ∧ IsQuotedBody body
  html : x.isHtml = true → ∃ body, x.text.toList = '<' :: (body ++ ['>']) ∧ IsHtmlBody body
  bare : x.isBare = true → x.isKeyword = false →
    ∀ c ∈ x.text.toList.head?, Text.isBlank c = false

lemma exists_body_of_isQuoted {x : Ident} (h : x.isQuoted = true) :
    ∃ body, x.text.toList = '"' :: (body ++ ['"']) := by
  rw [isQuoted, Option.isSome_iff_exists] at h
  obtain ⟨body, h⟩ := h
  unfold quotedBody? at h
  split at h
  · rename_i cs ht
    split at h
    · rename_i rev hr
      refine ⟨rev.reverse, ?_⟩
      rw [ht, ← List.reverse_cons, ← hr, List.reverse_reverse]
    · simp at h
  · simp at h

lemma exists_body_of_isHtml {x : Ident} (h : x.isHtml = true) :
    ∃ body, x.text.toList = '<' :: (body ++ ['>']) := by
  simp only [isHtml, Bool.and_eq_true, beq_iff_eq] at h
  obtain ⟨cs, ht⟩ := List.head?_eq_some_iff.1 h.1
  have hlast := h.2
  rw [ht] at hlast
  cases cs with
  | nil => simp at hlast
  | cons c cs =>
    rw [List.getLast?_cons_cons] at hlast
    obtain ⟨body, hbody⟩ := List.getLast?_eq_some_iff.1 hlast
    exact ⟨body, by rw [ht, hbody]⟩

lemma toDot_of_not_verbatim {x : Ident} (hq : x.isQuoted = false) (hh : x.isHtml = false)
    (hb : x.isBare = true → x.isKeyword = true) : x.toDot = (quote x.text).text := by
  rw [toDot, if_neg]
  simpa [hq, hh] using hb

end Ident

namespace Scan

/-- The first character of a word tells whether it is a literal. -/
lemma IsWord.kind_of_head {kind : WordKind} {text : String} {c : Char} {cs : List Char}
    (h : IsWord kind text) (ht : text.toList = c :: cs) :
    (c = '"' → kind = .quoted) ∧ (c = '<' → kind = .html) := by
  obtain ⟨d, ds, hd, -, hw⟩ := h
  obtain ⟨rfl, rfl⟩ := List.cons.inj (ht.symm.trans hd)
  generalize c :: cs = a at hw
  generalize ([] : List Char) = rest at hw
  cases hw with
  | quoted => exact ⟨fun _ => rfl, fun hc => absurd hc (by decide)⟩
  | html => exact ⟨fun hc => absurd hc (by decide), fun _ => rfl⟩
  | negative => exact ⟨fun hc => absurd hc (by decide), fun hc => absurd hc (by decide)⟩
  | numeral hc => constructor <;> (rintro rfl; simp at hc)
  | name hc => constructor <;> (rintro rfl; exact absurd hc (by decide))

end Scan

namespace Ident

/-- What is one token is a literal as a whole, or a word with no blank in front. -/
lemma isSealed_of_isWord {x : Ident} {kind : WordKind} (hw : IsWord kind x.toDot) :
    x.IsSealed where
  quoted hq := by
    rw [toDot_of_verbatim (.inl hq)] at hw
    obtain ⟨body, ht⟩ := exists_body_of_isQuoted hq
    rw [(hw.kind_of_head ht).1 rfl] at hw
    obtain ⟨inner, hinner, ht'⟩ := isWord_quoted_iff.1 hw
    exact ⟨inner, ht', hinner⟩
  html hh := by
    rw [toDot_of_verbatim (.inr (.inl hh))] at hw
    obtain ⟨body, ht⟩ := exists_body_of_isHtml hh
    rw [(hw.kind_of_head ht).2 rfl] at hw
    exact ⟨body, ht, (isWord_html_iff_body ht).1 hw⟩
  bare hb hk := by
    rw [toDot_of_verbatim (.inr (.inr ⟨hb, hk⟩))] at hw
    obtain ⟨d, ds, ht, hblank, -⟩ := hw
    intro c hc
    rw [ht] at hc
    cases hc
    exact hblank

lemma IsSealed.isWord_toDot {x : Ident} (h : x.IsSealed) :
    ∃ kind, IsWord kind x.toDot ∧ (Lexeme.word kind x.toDot).keyword? = none := by
  by_cases hq : x.isQuoted = true
  · obtain ⟨body, ht, hbody⟩ := h.quoted hq
    rw [toDot_of_verbatim (.inl hq)]
    exact ⟨.quoted, isWord_quoted_iff.2 ⟨body, hbody, ht⟩, rfl⟩
  by_cases hh : x.isHtml = true
  · obtain ⟨body, ht, hbody⟩ := h.html hh
    rw [toDot_of_verbatim (.inr (.inl hh))]
    exact ⟨.html, (isWord_html_iff_body ht).2 hbody, rfl⟩
  by_cases hb : x.isBare = true ∧ x.isKeyword = false
  · obtain ⟨kind, hkind, hw⟩ := isWord_of_isBare hb.1 (h.bare hb.1 hb.2)
    rw [toDot_of_verbatim (.inr (.inr hb))]
    refine ⟨kind, hw, ?_⟩
    rcases hkind with rfl | rfl
    · exact Option.isNone_iff_eq_none.1 (Option.isSome_eq_false_iff.1 hb.2)
    · rfl
  · -- everything else is quoted, and quoted text is a literal
    have hquote : x.toDot = (quote x.text).text := by
      apply toDot_of_not_verbatim
      · simpa using hq
      · simpa using hh
      · simpa using hb
    rw [hquote]
    exact ⟨.quoted, isWord_quote x.text, rfl⟩

/-- An identifier is written as one token exactly when it is sealed. -/
theorem isIdentText_toDot_iff (x : Ident) : IsIdentText x.toDot ↔ x.IsSealed := by
  rw [isIdentText_iff]
  constructor
  · rintro ⟨kind, hw, -⟩
    exact isSealed_of_isWord hw
  · intro h
    exact h.isWord_toDot

/-- A literal is closed by a quote or by a bracket inside it, and a blank in front of a name is
skipped, so that none of these identifiers is written as one token. -/
theorem not_isIdentText_toDot : ¬ IsIdentText (toDot ⟨"\"a\"b\"c\""⟩) ∧
    ¬ IsIdentText (toDot ⟨"<a>b<c>"⟩) ∧ ¬ IsIdentText (toDot ⟨"\u00a0x"⟩) := by
  refine ⟨?_, ?_, ?_⟩
  · refine not_isIdentText_of_lexemes
      [.word .quoted "\"a\"", .word .name "b", .word .quoted "\"c\""] ?_ ?_
    · decide +kernel
    · intro kind h
      simp at h
  · refine not_isIdentText_of_lexemes
      [.word .html "<a>", .word .name "b", .word .html "<c>"] ?_ ?_
    · decide +kernel
    · intro kind h
      simp at h
  · refine not_isIdentText_of_lexemes [.word .name "x"] ?_ ?_
    · decide +kernel
    · have hlost : "x" ≠ toDot ⟨"\u00a0x"⟩ := by decide +kernel
      intro kind h
      simp [hlost] at h

end Ident

end DotGraph
