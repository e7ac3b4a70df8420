import DotGraph.Proofs.Grammar
import DotGraph.Proofs.Reading

/-!
# Canonical identifiers

The identifiers that are written as they stand and read back as one word. A word of a source text
is one of them, unless it is a keyword or a sign with a point and no digit.
-/

namespace DotGraph

open Scan Grammar

/-- The numeral that is written as a quoted literal: a sign and a point without a digit. -/
def signedPoint : Lexeme := .word .numeral "-."

/-- No token of the source is the numeral of a sign and a point. -/
def AvoidsSignedPoint (source : String) : Prop :=
  ∀ tokens, Tokens.ofString source = .ok tokens →
    ∀ token ∈ tokens.list, token.lexeme ≠ signedPoint

instance (source : String) : Decidable (AvoidsSignedPoint source) :=
  match h : Tokens.ofString source with
  | .error _ => isTrue fun _ ht => nomatch h.symm.trans ht
  | .ok tokens =>
    decidable_of_iff (∀ token ∈ tokens.list, token.lexeme ≠ signedPoint)
      ⟨fun ha _ ht => Except.ok.inj (h.symm.trans ht) ▸ ha, fun ha => ha tokens h⟩

namespace Ident

/-- An identifier that is written as it stands, is no keyword, and is the text of one token. -/
structure IsCanonical (x : Ident) : Prop where
  toDot_eq : x.toDot = x.text
  notKeyword : x.isKeyword = false
  token : ∃ kind p q, Tokens.ofString x.text = .ok ⟨[⟨.word kind x.text, p⟩], q⟩

lemma IsCanonical.ne_signedPoint {x : Ident} (h : x.IsCanonical) : x.text ≠ "-." := by
  obtain ⟨text⟩ := x
  rintro rfl
  exact absurd h.toDot_eq (by decide)

lemma IsCanonical.isWord {x : Ident} (h : x.IsCanonical) : ∃ kind, IsWord kind x.text := by
  obtain ⟨kind, hw⟩ := h.token
  exact ⟨kind, isWord_iff.2 hw⟩

lemma isCanonical_of_isWord {x : Ident} {kind : WordKind} (hw : IsWord kind x.text)
    (hk : x.isKeyword = false) (hd : x.toDot = x.text) : x.IsCanonical :=
  ⟨hd, hk, kind, isWord_iff.1 hw⟩

/-- A canonical identifier is spelled by one word. -/
lemma IsCanonical.isIdent {x : Ident} (h : x.IsCanonical) :
    ∃ kind, IsWord kind x.text ∧ IsIdent [.word kind x.text] x := by
  obtain ⟨kind, hw⟩ := h.isWord
  refine ⟨kind, hw, ?_⟩
  cases kind with
  | name => exact .name (Option.isSome_eq_false_iff.1 h.notKeyword |> Option.isNone_iff_eq_none.1)
  | numeral => exact .numeral x.text
  | quoted => exact .quoted (.nil x.text)
  | html => exact .html x.text

end Ident

/-! ### The words of a source -/

namespace Scan

lemma IsWord.name_text {text : String} (h : IsWord .name text) :
    Ident.isNameText text.toList = true := by
  obtain ⟨c, cs, ht, -, hw⟩ := h
  rw [ht]
  generalize ha : c :: cs = a at hw
  generalize ([] : List Char) = rest at hw
  cases hw with
  | name hc =>
    rw [Ident.isNameText, hc, Bool.true_and, List.all_eq_true]
    exact mem_takeWhile Ident.isNameChar cs

lemma IsWord.html_text {text : String} (h : IsWord .html text) :
    ∃ b, text.toList = '<' :: (b ++ ['>']) := by
  obtain ⟨c, cs, ht, -, hw⟩ := h
  cases hw with
  | html h =>
    obtain ⟨b, rfl⟩ := htmlTail_last h
    exact ⟨b, ht⟩

/-- The text of a quoted word is its body between quotes. -/
theorem isWord_quoted_iff {text : String} :
    IsWord .quoted text ↔ ∃ body, IsQuotedBody body ∧ text.toList = '"' :: (body ++ ['"']) := by
  constructor
  · rintro ⟨c, cs, ht, -, hw⟩
    cases hw with
    | quoted h =>
      obtain ⟨body, hbody, rfl⟩ := isQuotedBody_of_quotedTail h
      exact ⟨body, hbody, ht⟩
  · rintro ⟨body, hbody, ht⟩
    exact ⟨'"', body ++ ['"'], ht, rfl, .quoted (quotedTail_of_isQuotedBody hbody [])⟩

lemma isWord_html_iff {text : String} :
    IsWord .html text ↔ ∃ cs, text.toList = '<' :: cs ∧ IsHtmlTail 0 cs := by
  constructor
  · rintro ⟨c, cs, ht, -, hw⟩
    cases hw with
    | html h => exact ⟨cs, ht, h⟩
  · rintro ⟨cs, ht, h⟩
    exact ⟨'<', cs, ht, rfl, .html h⟩

lemma isWord_name {c : Char} {cs : List Char} (hb : Text.isBlank c = false)
    (hc : Ident.isNameStart c = true) (hcs : ∀ d ∈ cs, Ident.isNameChar d = true) :
    IsWord .name (String.ofList (c :: cs)) := by
  obtain ⟨ht, hd⟩ := @takeWhile_dropWhile_append Ident.isNameChar cs [] hcs (by simp)
  rw [List.append_nil] at ht hd
  have hw : WordAt .name c cs _ _ := .name hc
  rw [ht, hd] at hw
  exact ⟨c, cs, String.toList_ofList, hb, hw⟩

/-- The text of a numeral is a number, which a sign may precede. -/
lemma IsWord.numeral_text {text : String} (h : IsWord .numeral text) :
    ∃ ds, IsUnsigned ds ∧ ds ≠ [] ∧
      (text.toList = '-' :: ds ∨ text.toList = ds ∧ ds ≠ ['.'] ∧ ds.head? ≠ some '-') := by
  obtain ⟨c, cs, ht, -, hw⟩ := h
  generalize ha : c :: cs = a at hw
  cases hw with
  | @negative d cs a rest hd h =>
    have hu := isUnsigned_unsignedNumeral (d :: cs)
    have hne : (unsignedNumeral (d :: cs)).1 ≠ [] := unsignedNumeral_ne_nil hd
    rw [h] at hu hne
    cases ha
    exact ⟨_, hu, hne, .inl ht⟩
  | numeral hc h =>
    have hu := isUnsigned_unsignedNumeral (c :: cs)
    have hne : (unsignedNumeral (c :: cs)).1 ≠ [] :=
      unsignedNumeral_ne_nil (hc.imp id And.left)
    rw [h] at hu hne
    subst ha
    refine ⟨_, hu, hne, .inr ⟨ht, ?_, ?_⟩⟩
    · rintro heq
      cases heq
      simp at hc
    · rintro heq
      cases heq
      simp at hc

lemma IsWord.numeral_head {text : String} (h : IsWord .numeral text) :
    ∃ c cs, text.toList = c :: cs ∧ c.isAlpha = false := by
  obtain ⟨c, cs, ht, -, hw⟩ := h
  refine ⟨c, cs, ht, ?_⟩
  cases hw with
  | negative => rfl
  | numeral hc =>
    rcases hc with hc | ⟨rfl, -⟩
    · by_contra halpha
      have hstart : Ident.isNameStart c = true := by simp_all [Ident.isNameStart]
      rw [not_isDigit_of_isNameStart hstart] at hc
      exact absurd hc (by simp)
    · rfl

end Scan

namespace Ident

lemma isKeyword_eq_false {x : Ident} {c : Char} {cs : List Char} (ht : x.text.toList = c :: cs)
    (hc : c.isAlpha = false) : x.isKeyword = false := by
  have hletter (k : Keyword) : ∃ d ds, k.text.toList = d :: ds ∧ d.isAlpha = true := by
    cases k <;> exact ⟨_, _, rfl, rfl⟩
  have hup : c.isUpper = false := by
    have hcase : (c.isUpper || c.isLower) = false := hc
    rw [Bool.or_eq_false_iff] at hcase
    exact hcase.1
  have hlow : c.toLower = c := dif_neg (of_decide_eq_false hup)
  rw [isKeyword, Keyword.ofText?, Option.isSome_eq_false_iff, Option.isNone_iff_eq_none,
    List.find?_eq_none]
  intro k _ hk
  obtain ⟨d, ds, hd, halpha⟩ := hletter k
  have := congrArg String.toList (of_decide_eq_true hk)
  rw [hd, Text.lower, String.toList_ofList, ht, List.map_cons, hlow] at this
  cases this
  rw [hc] at halpha
  exact absurd halpha (by simp)

lemma toDot_of_verbatim {x : Ident} (h : x.isQuoted = true ∨ x.isHtml = true ∨
    x.isBare = true ∧ x.isKeyword = false) : x.toDot = x.text := by
  unfold toDot
  rw [if_pos]
  rcases h with h | h | ⟨h, hk⟩
  · simp [h]
  · simp [h]
  · simp [h, hk]

lemma isCanonical_name {text : String} (hw : IsWord .name text)
    (hk : Keyword.ofText? text = none) : IsCanonical ⟨text⟩ := by
  have hkey : isKeyword ⟨text⟩ = false := by rw [isKeyword, hk]; rfl
  refine isCanonical_of_isWord hw hkey (toDot_of_verbatim (.inr (.inr ⟨?_, hkey⟩)))
  rw [isBare, hw.name_text, Bool.true_or]

lemma isCanonical_html {text : String} (hw : IsWord .html text) : IsCanonical ⟨text⟩ := by
  obtain ⟨b, hb⟩ := hw.html_text
  refine isCanonical_of_isWord hw (isKeyword_eq_false hb rfl) (toDot_of_verbatim (.inr (.inl ?_)))
  rw [isHtml, hb, ← List.cons_append, List.getLast?_concat]
  rfl

lemma quotedBody?_of_isQuotedBody {body : List Char} (h : IsQuotedBody body) :
    quotedBody? ('"' :: (body ++ ['"'])) = some body := by
  have heven := h.even_backslashes
  simp [quotedBody?, heven]

lemma isQuoted_of_isWord {x : Ident} (hw : IsWord .quoted x.text) : x.isQuoted = true := by
  obtain ⟨body, hbody, ht⟩ := isWord_quoted_iff.1 hw
  rw [isQuoted, ht, quotedBody?_of_isQuotedBody hbody]
  rfl

lemma isCanonical_quoted {text : String} (hw : IsWord .quoted text) : IsCanonical ⟨text⟩ := by
  obtain ⟨body, -, ht⟩ := isWord_quoted_iff.1 hw
  exact isCanonical_of_isWord hw (isKeyword_eq_false ht rfl)
    (toDot_of_verbatim (.inl (isQuoted_of_isWord hw)))

lemma isNumeralText_of_isUnsigned {ds : List Char} (h : IsUnsigned ds) (hne : ds ≠ [])
    (hp : ds ≠ ['.']) : isNumeralText ('-' :: ds) = true := by
  have hnot {es : List Char} (he : ∀ c ∈ es, c.isDigit = true) : ∀ c ∈ es, (c != '.') = true := by
    intro c hc
    have := he c hc
    rw [bne_iff_ne]
    rintro rfl
    exact absurd this (by decide)
  have hend (rest : List Char) (h : rest.head?.all (· == '.')) :
      ∀ c ∈ rest.head?, (c != '.') = false := by
    intro c hc
    rw [Option.mem_def.1 hc] at h
    simpa using h
  cases h with
  | whole hd =>
    obtain ⟨htake, hdrop⟩ := takeWhile_dropWhile_append (hnot hd) (hend [] (by simp))
    rw [List.append_nil] at htake hdrop
    simp only [isNumeralText, htake, hdrop]
    simpa [hne] using hd
  | @point as es hd he =>
    obtain ⟨htake, hdrop⟩ :=
      takeWhile_dropWhile_append (hnot hd) (hend ('.' :: es) (by simp))
    simp only [isNumeralText, htake, hdrop]
    have hsome : (as.isEmpty && es.isEmpty) = false := by
      by_contra hnone
      simp only [Bool.not_eq_false, Bool.and_eq_true, List.isEmpty_iff] at hnone
      simp [hnone] at hp
    rw [hsome, List.all_eq_true.2 hd, List.all_eq_true.2 he]
    rfl

lemma isNumeralText_unsigned {ds : List Char} (h : ds.head? ≠ some '-') :
    isNumeralText ds = isNumeralText ('-' :: ds) := by
  cases ds with
  | nil => rfl
  | cons d ds =>
    have hd : d ≠ '-' := by simpa using h
    unfold isNumeralText
    split
    · rename_i heq
      cases heq
      exact absurd rfl hd
    · rfl

lemma isCanonical_numeral {text : String} (hw : IsWord .numeral text) (hs : text ≠ "-.") :
    IsCanonical ⟨text⟩ := by
  obtain ⟨ds, hu, hne, hds⟩ := hw.numeral_text
  have hnumeral : isNumeral ⟨text⟩ = true := by
    rcases hds with ht | ⟨ht, hp, hm⟩
    · refine (congrArg isNumeralText ht).trans (isNumeralText_of_isUnsigned hu hne ?_)
      rintro rfl
      exact hs (String.toList_inj.1 ht)
    · apply (congrArg isNumeralText ht).trans
      rw [isNumeralText_unsigned hm]
      exact isNumeralText_of_isUnsigned hu hne hp
  obtain ⟨c, cs, ht, hc⟩ := hw.numeral_head
  have hkey : isKeyword ⟨text⟩ = false := isKeyword_eq_false ht hc
  refine isCanonical_of_isWord hw hkey (toDot_of_verbatim (.inr (.inr ⟨?_, hkey⟩)))
  rw [isBare, hnumeral, Bool.or_true]

lemma isWord_joinQuoted {a b : String} (ha : IsWord .quoted a) (hb : IsWord .quoted b) :
    IsWord .quoted (Parser.joinQuoted a b) := by
  obtain ⟨as, has, hat⟩ := isWord_quoted_iff.1 ha
  obtain ⟨bs, hbs, hbt⟩ := isWord_quoted_iff.1 hb
  refine isWord_quoted_iff.2 ⟨as ++ bs, has.append hbs, ?_⟩
  rw [Parser.joinQuoted, hat, hbt, String.toList_ofList, ← List.cons_append, List.dropLast_concat]
  simp

lemma isWord_concatenation {a b : String} {xs : List Lexeme} (h : IsConcatenation a xs b)
    (ha : IsWord .quoted a) (hx : ∀ kind text, .word kind text ∈ xs → IsWord kind text) :
    IsWord .quoted b := by
  induction h with
  | nil => exact ha
  | @cons a b c xs h ih =>
    apply ih (isWord_joinQuoted ha (hx .quoted b (by simp)))
    intro kind text hmem
    exact hx kind text (List.mem_cons_of_mem _ (List.mem_cons_of_mem _ hmem))

/-- An identifier that is spelled by words of a source is canonical. -/
theorem isCanonical_of_isIdent {xs : List Lexeme} {x : Ident} (h : IsIdent xs x)
    (hx : ∀ kind text, .word kind text ∈ xs → IsWord kind text) (hs : signedPoint ∉ xs) :
    x.IsCanonical := by
  cases h with
  | name hk => exact isCanonical_name (hx _ _ (by simp)) hk
  | numeral text =>
    apply isCanonical_numeral (hx _ _ (by simp))
    rintro rfl
    simp [signedPoint] at hs
  | html text => exact isCanonical_html (hx _ _ (by simp))
  | @quoted a b xs h =>
    refine isCanonical_quoted (isWord_concatenation h (hx _ _ (by simp)) fun kind text hmem => ?_)
    exact hx kind text (List.mem_cons_of_mem _ hmem)

end Ident

end DotGraph
