import DotGraph.Token.Scan
import Mathlib.Tactic.Common

/-!
# Words

The lexemes with a text: names, numerals, and quoted and HTML literals. A word is cut at the first
place where it can end, so it is read the same when it stands alone, and in front of any
character that cannot continue it.
-/

namespace DotGraph.Scan

lemma quotedTail_cons {c : Char} (cs : List Char) (hq : c ≠ '"') (hb : c ≠ '\\') :
    quotedTail (c :: cs) = (quotedTail cs).map fun r => (c :: r.1, r.2) := by
  rw [quotedTail]
  · exact hq
  · rintro _ _ rfl
    exact absurd rfl hb

/-- What stands between the quotes of a literal: characters other than the quote, a backslash
together with the one behind it. -/
inductive IsQuotedBody : List Char → Prop
  | nil : IsQuotedBody []
  | escaped (c : Char) {cs : List Char} (h : IsQuotedBody cs) : IsQuotedBody ('\\' :: c :: cs)
  | char {c : Char} {cs : List Char} (hq : c ≠ '"') (hb : c ≠ '\\') (h : IsQuotedBody cs) :
      IsQuotedBody (c :: cs)

lemma IsQuotedBody.append {as bs : List Char} (ha : IsQuotedBody as) (hb : IsQuotedBody bs) :
    IsQuotedBody (as ++ bs) := by
  induction ha with
  | nil => exact hb
  | escaped c _ ih => exact .escaped c ih
  | char hq hb _ ih => exact .char hq hb ih

lemma isQuotedBody_of_quotedTail {cs a rest : List Char} (h : quotedTail cs = some (a, rest)) :
    ∃ body, IsQuotedBody body ∧ a = body ++ ['"'] := by
  fun_induction quotedTail cs generalizing a rest with
  | case1 => simp at h
  | case2 cs =>
    cases h
    exact ⟨[], .nil, rfl⟩
  | case3 c cs ih =>
    obtain ⟨⟨b, left⟩, hr, heq⟩ := Option.map_eq_some_iff.1 h
    cases heq
    obtain ⟨body, hbody, rfl⟩ := ih hr
    exact ⟨'\\' :: c :: body, hbody.escaped c, rfl⟩
  | case4 c cs hq hb ih =>
    obtain ⟨⟨b, left⟩, hr, heq⟩ := Option.map_eq_some_iff.1 h
    cases heq
    obtain ⟨body, hbody, rfl⟩ := ih hr
    cases cs with
    | nil => simp [quotedTail] at hr
    | cons d cs => exact ⟨c :: body, hbody.char hq fun hc => hb d cs hc rfl, rfl⟩

/-- The end of a literal does not depend on what follows it. -/
lemma quotedTail_of_isQuotedBody {body : List Char} (h : IsQuotedBody body) (rest : List Char) :
    quotedTail (body ++ '"' :: rest) = some (body ++ ['"'], rest) := by
  induction h with
  | nil => simp [quotedTail]
  | escaped c _ ih => simp [quotedTail, ih]
  | char hq hb _ ih => rw [List.cons_append, quotedTail_cons _ hq hb, ih, Option.map_some]; rfl

/-- An even number of backslashes stands in front of the closing quote. -/
lemma IsQuotedBody.even_backslashes {body : List Char} (h : IsQuotedBody body) :
    (body.reverse.takeWhile (· == '\\')).length % 2 = 0 := by
  induction h with
  | nil => rfl
  | escaped c h ih =>
    rw [List.reverse_cons, List.reverse_cons, List.append_assoc, List.takeWhile_append]
    split
    · rename_i heq
      rw [heq] at ih
      by_cases hc : c = '\\' <;> simp_all
    · exact ih
  | char hq hb h ih =>
    rw [List.reverse_cons, List.takeWhile_append]
    split
    · rename_i heq
      rw [heq] at ih
      simp_all
    · exact ih

lemma htmlTail_extend {depth : Nat} {cs a rest : List Char}
    (h : htmlTail depth cs = some (a, rest)) (more : List Char) :
    htmlTail depth (cs ++ more) = some (a, rest ++ more) := by
  fun_induction htmlTail depth cs generalizing a rest with
  | case1 => simp at h
  | case2 depth cs ih =>
    obtain ⟨⟨b, left⟩, hr, heq⟩ := Option.map_eq_some_iff.1 h
    cases heq
    simp [htmlTail, ih hr]
  | case3 => cases h; simp [htmlTail]
  | case4 cs _ depth ih =>
    obtain ⟨⟨b, left⟩, hr, heq⟩ := Option.map_eq_some_iff.1 h
    cases heq
    simp [htmlTail, ih hr]
  | case5 depth c cs ho hc ih =>
    obtain ⟨⟨b, left⟩, hr, heq⟩ := Option.map_eq_some_iff.1 h
    cases heq
    simp [htmlTail, ih hr, ho, hc]

lemma htmlTail_last {depth : Nat} {cs a rest : List Char}
    (h : htmlTail depth cs = some (a, rest)) : ∃ b, a = b ++ ['>'] := by
  fun_induction htmlTail depth cs generalizing a rest with
  | case1 => simp at h
  | case2 depth cs ih =>
    obtain ⟨⟨b, left⟩, hr, heq⟩ := Option.map_eq_some_iff.1 h
    cases heq
    obtain ⟨b, rfl⟩ := ih hr
    exact ⟨'<' :: b, rfl⟩
  | case3 =>
    cases h
    exact ⟨[], rfl⟩
  | case4 cs _ depth ih =>
    obtain ⟨⟨b, left⟩, hr, heq⟩ := Option.map_eq_some_iff.1 h
    cases heq
    obtain ⟨b, rfl⟩ := ih hr
    exact ⟨'>' :: b, rfl⟩
  | case5 depth c cs _ _ ih =>
    obtain ⟨⟨b, left⟩, hr, heq⟩ := Option.map_eq_some_iff.1 h
    cases heq
    obtain ⟨b, rfl⟩ := ih hr
    exact ⟨c :: b, rfl⟩

lemma htmlTail_alone {depth : Nat} {cs a rest : List Char}
    (h : htmlTail depth cs = some (a, rest)) : htmlTail depth a = some (a, []) := by
  fun_induction htmlTail depth cs generalizing a rest with
  | case1 => simp at h
  | case2 depth cs ih =>
    obtain ⟨⟨b, left⟩, hr, heq⟩ := Option.map_eq_some_iff.1 h
    cases heq
    simp [htmlTail, ih hr]
  | case3 => cases h; simp [htmlTail]
  | case4 cs _ depth ih =>
    obtain ⟨⟨b, left⟩, hr, heq⟩ := Option.map_eq_some_iff.1 h
    cases heq
    simp [htmlTail, ih hr]
  | case5 depth c cs ho hc ih =>
    obtain ⟨⟨b, left⟩, hr, heq⟩ := Option.map_eq_some_iff.1 h
    cases heq
    simp [htmlTail, ih hr, ho, hc]

/-- The text ends where `depth` inner brackets and the outer one are closed. -/
def IsHtmlTail (depth : Nat) (cs : List Char) : Prop := htmlTail depth cs = some (cs, [])

lemma map_cons_eq_some_iff {c : Char} {cs : List Char} {o : Option (List Char × List Char)} :
    (o.map fun r => (c :: r.1, r.2)) = some (c :: cs, []) ↔ o = some (cs, []) := by
  cases o <;> simp [Prod.ext_iff]

lemma isHtmlTail_char_iff {depth : Nat} {c : Char} {cs : List Char} (ho : c ≠ '<') (hc : c ≠ '>') :
    IsHtmlTail depth (c :: cs) ↔ IsHtmlTail depth cs := by
  rw [IsHtmlTail, htmlTail.eq_def]
  simp only [if_neg ho, if_neg hc]
  exact map_cons_eq_some_iff

lemma isHtmlTail_open_iff {depth : Nat} {cs : List Char} :
    IsHtmlTail depth ('<' :: cs) ↔ IsHtmlTail (depth + 1) cs := by
  rw [IsHtmlTail, htmlTail.eq_def]
  exact map_cons_eq_some_iff

lemma isHtmlTail_close_iff {depth : Nat} {cs : List Char} :
    IsHtmlTail (depth + 1) ('>' :: cs) ↔ IsHtmlTail depth cs := by
  rw [IsHtmlTail, htmlTail.eq_def]
  exact map_cons_eq_some_iff

lemma isHtmlTail_last_iff {cs : List Char} : IsHtmlTail 0 ('>' :: cs) ↔ cs = [] := by
  simp [IsHtmlTail, htmlTail, eq_comm]

/-- A text that no word can run into: it is empty or starts with a character that continues
neither a name nor a numeral. -/
def Ends (cs : List Char) : Prop := ∀ c ∈ cs.head?, Ident.isNameChar c = false ∧ c ≠ '.'

lemma ends_nil : Ends [] := by simp [Ends]

lemma ends_cons {c : Char} (hc : Ident.isNameChar c = false) (hp : c ≠ '.') (cs : List Char) :
    Ends (c :: cs) := by
  intro d hd
  cases hd
  exact ⟨hc, hp⟩

lemma Ends.not_nameChar {c : Char} {cs : List Char} (h : Ends (c :: cs)) :
    Ident.isNameChar c = false := (h c rfl).1

lemma Ends.not_digit {c : Char} {cs : List Char} (h : Ends (c :: cs)) : c.isDigit = false := by
  have := h.not_nameChar
  simp only [Ident.isNameChar, Bool.or_eq_false_iff] at this
  exact this.2

lemma Ends.ne_point {c : Char} {cs : List Char} (h : Ends (c :: cs)) : c ≠ '.' := (h c rfl).2

lemma Ends.head {cs : List Char} (h : Ends cs) :
    ∀ c ∈ cs.head?, c.isDigit = false ∧ c ≠ '.' := by
  cases cs with
  | nil => simp
  | cons c cs =>
    intro d hd
    cases hd
    exact ⟨h.not_digit, h.ne_point⟩

lemma takeWhile_dropWhile_append {p : Char → Bool} {ds rest : List Char}
    (hd : ∀ c ∈ ds, p c = true) (hr : ∀ c ∈ rest.head?, p c = false) :
    (ds ++ rest).takeWhile p = ds ∧ (ds ++ rest).dropWhile p = rest := by
  rw [List.takeWhile_append_of_pos hd, List.dropWhile_append_of_pos hd]
  cases rest with
  | nil => simp
  | cons c cs => simp [hr c rfl]

lemma mem_takeWhile (p : Char → Bool) (cs : List Char) : ∀ c ∈ cs.takeWhile p, p c = true :=
  List.all_eq_true.1 List.all_takeWhile

lemma head_dropWhile (p : Char → Bool) (cs : List Char) :
    ∀ c ∈ (cs.dropWhile p).head?, p c = false := by
  intro c hc
  have := List.head?_dropWhile_not p cs
  rw [Option.mem_def] at hc
  simpa [hc] using this

/-- A cut stays where it is when the text goes on with what `p` does not hold of. -/
lemma takeWhile_dropWhile_extend {p : Char → Bool} (cs : List Char) {more : List Char}
    (hm : ∀ c ∈ more.head?, p c = false) : (cs ++ more).takeWhile p = cs.takeWhile p ∧
      (cs ++ more).dropWhile p = cs.dropWhile p ++ more := by
  have hhead : ∀ c ∈ (cs.dropWhile p ++ more).head?, p c = false := by
    have hdrop := head_dropWhile p cs
    cases hrest : cs.dropWhile p with
    | nil => exact hm
    | cons d ds =>
      rw [hrest] at hdrop
      exact hdrop
  have hcut := takeWhile_dropWhile_append (mem_takeWhile p cs) hhead
  rwa [← List.append_assoc, List.takeWhile_append_dropWhile] at hcut

/-- The digits of a numeral: a whole part, which a point and a fraction may follow. -/
inductive IsUnsigned : List Char → Prop
  | whole {ds : List Char} (hd : ∀ c ∈ ds, c.isDigit = true) : IsUnsigned ds
  | point {ds es : List Char} (hd : ∀ c ∈ ds, c.isDigit = true)
      (he : ∀ c ∈ es, c.isDigit = true) : IsUnsigned (ds ++ '.' :: es)

lemma unsignedNumeral_whole {ds rest : List Char} (hd : ∀ c ∈ ds, c.isDigit = true)
    (hr : ∀ c ∈ rest.head?, c.isDigit = false ∧ c ≠ '.') :
    unsignedNumeral (ds ++ rest) = (ds, rest) := by
  obtain ⟨ht, hdrop⟩ := takeWhile_dropWhile_append hd fun c hc => (hr c hc).1
  unfold unsignedNumeral
  rw [ht, hdrop]
  split
  · exact absurd rfl (hr '.' rfl).2
  · rfl

lemma unsignedNumeral_point {ds es rest : List Char} (hd : ∀ c ∈ ds, c.isDigit = true)
    (he : ∀ c ∈ es, c.isDigit = true) (hr : ∀ c ∈ rest.head?, c.isDigit = false) :
    unsignedNumeral (ds ++ '.' :: (es ++ rest)) = (ds ++ '.' :: es, rest) := by
  have hpoint : ∀ c ∈ ('.' :: (es ++ rest)).head?, c.isDigit = false := by
    intro c hc
    cases hc
    decide
  obtain ⟨ht, hdrop⟩ := takeWhile_dropWhile_append hd hpoint
  obtain ⟨ht', hdrop'⟩ := takeWhile_dropWhile_append he hr
  unfold unsignedNumeral
  simp only [ht, hdrop, ht', hdrop']

lemma isUnsigned_unsignedNumeral (cs : List Char) : IsUnsigned (unsignedNumeral cs).1 := by
  unfold unsignedNumeral
  split
  · exact .point (mem_takeWhile _ _) (mem_takeWhile _ _)
  · exact .whole (mem_takeWhile _ _)

lemma unsignedNumeral_extend {a rest : List Char} (h : IsUnsigned a) (hr : Ends rest) :
    unsignedNumeral (a ++ rest) = (a, rest) := by
  cases h with
  | whole hd => exact unsignedNumeral_whole hd hr.head
  | point hd he =>
    rw [List.append_assoc, List.cons_append]
    exact unsignedNumeral_point hd he fun c hc => (hr.head c hc).1

/-- The words at a character in front of others: the text of the word and what is left. -/
inductive WordAt : WordKind → Char → List Char → List Char → List Char → Prop
  | quoted {cs a rest : List Char} (h : quotedTail cs = some (a, rest)) :
      WordAt .quoted '"' cs ('"' :: a) rest
  | html {cs a rest : List Char} (h : htmlTail 0 cs = some (a, rest)) :
      WordAt .html '<' cs ('<' :: a) rest
  | negative {d : Char} {cs a rest : List Char} (hd : d.isDigit = true ∨ d = '.')
      (h : unsignedNumeral (d :: cs) = (a, rest)) : WordAt .numeral '-' (d :: cs) ('-' :: a) rest
  | numeral {c : Char} {cs a rest : List Char}
      (hc : c.isDigit = true ∨ c = '.' ∧ cs.head?.any Char.isDigit = true)
      (h : unsignedNumeral (c :: cs) = (a, rest)) : WordAt .numeral c cs a rest
  | name {c : Char} {cs : List Char} (hc : Ident.isNameStart c = true) :
      WordAt .name c cs (c :: cs.takeWhile Ident.isNameChar) (cs.dropWhile Ident.isNameChar)

lemma wordAt_of_lexeme {kind : WordKind} {c : Char} {cs rest : List Char} {text : String}
    (h : lexeme c cs = .ok (.word kind text, rest)) : WordAt kind c cs text.toList rest := by
  unfold lexeme at h
  split at h
  · simp at h
  split at h
  · rename_i hc
    split at h
    · rename_i cut hcut
      cases h
      subst hc
      rw [String.toList_ofList]
      exact WordAt.quoted hcut
    · simp at h
  split at h
  · rename_i hc
    split at h
    · rename_i cut hcut
      cases h
      subst hc
      rw [String.toList_ofList]
      exact WordAt.html hcut
    · simp at h
  split at h
  · rename_i hc
    subst hc
    unfold afterMinus at h
    split at h
    · simp at h
    · simp at h
    · split at h
      · rename_i hd
        simp only [word, Except.ok.injEq, Prod.mk.injEq, Lexeme.word.injEq] at h
        obtain ⟨⟨rfl, rfl⟩, rfl⟩ := h
        simp only [Bool.or_eq_true, decide_eq_true_eq] at hd
        rw [String.toList_ofList]
        exact WordAt.negative hd rfl
      · simp at h
    · simp at h
  split at h
  · rename_i hc
    simp only [word, Except.ok.injEq, Prod.mk.injEq, Lexeme.word.injEq] at h
    obtain ⟨⟨rfl, rfl⟩, rfl⟩ := h
    simp only [Bool.or_eq_true, Bool.and_eq_true, decide_eq_true_eq] at hc
    rw [String.toList_ofList]
    exact WordAt.numeral hc rfl
  split at h
  · rename_i hc
    simp only [word, Except.ok.injEq, Prod.mk.injEq, Lexeme.word.injEq] at h
    obtain ⟨⟨rfl, rfl⟩, rfl⟩ := h
    rw [String.toList_ofList]
    exact WordAt.name hc
  · simp at h

lemma isDigit_iff {c : Char} : c.isDigit = true ↔ 48 ≤ c.toNat ∧ c.toNat ≤ 57 := by
  rw [Char.isDigit, Bool.and_eq_true, decide_eq_true_eq, decide_eq_true_eq]
  exact Iff.rfl

lemma not_isBlank_of_isDigit {c : Char} (h : c.isDigit = true) : Text.isBlank c = false := by
  rw [isDigit_iff] at h
  simp only [Text.isBlank, Bool.or_eq_false_iff, Bool.and_eq_false_iff, decide_eq_false_iff_not,
    beq_eq_false_iff_ne]
  omega

lemma isNameStart_iff {c : Char} : Ident.isNameStart c = true ↔
    65 ≤ c.toNat ∧ c.toNat ≤ 90 ∨ 97 ≤ c.toNat ∧ c.toNat ≤ 122 ∨ c.toNat = 95 ∨
      128 ≤ c.toNat := by
  have hu : c = '_' ↔ c.toNat = 95 := ⟨fun h => h ▸ rfl, fun h => Char.toNat_inj.1 h⟩
  have hletter : c.isAlpha = (decide ('A'.val ≤ c.val ∧ c.val ≤ 'Z'.val) ||
      (decide ('a'.val ≤ c.val) && decide (c.val ≤ 'z'.val))) := rfl
  simp only [Ident.isNameStart, hletter, Bool.or_eq_true, Bool.and_eq_true, decide_eq_true_eq,
    beq_iff_eq, hu, or_assoc]
  exact Iff.rfl

lemma not_isBlank_of_isNameStart {c : Char} (h : Ident.isNameStart c = true)
    (hc : c.toNat < 0x80) : Text.isBlank c = false := by
  rw [isNameStart_iff] at h
  simp only [Text.isBlank, Bool.or_eq_false_iff, Bool.and_eq_false_iff, decide_eq_false_iff_not,
    beq_eq_false_iff_ne]
  omega

lemma not_isDigit_of_isNameStart {c : Char} (h : Ident.isNameStart c = true) :
    c.isDigit = false := by
  rw [← Bool.not_eq_true, isDigit_iff]
  rw [isNameStart_iff] at h
  omega

lemma symbol?_of_isDigit {c : Char} (h : c.isDigit = true) : symbol? c = none := by
  unfold symbol?
  split <;> first | rfl | exact absurd h (by decide)

lemma symbol?_of_isNameStart {c : Char} (h : Ident.isNameStart c = true) : symbol? c = none := by
  unfold symbol?
  split <;> first | rfl | exact absurd h (by decide)

lemma lexeme_numeral {c : Char} {cs : List Char}
    (hc : c.isDigit = true ∨ c = '.' ∧ cs.head?.any Char.isDigit = true) :
    lexeme c cs = .ok (word .numeral (unsignedNumeral (c :: cs))) := by
  have hne : symbol? c = none ∧ c ≠ '"' ∧ c ≠ '<' ∧ c ≠ '-' := by
    rcases hc with h | ⟨rfl, -⟩
    · refine ⟨symbol?_of_isDigit h, ?_, ?_, ?_⟩ <;>
        (rintro rfl; exact absurd h (by decide))
    · decide
  have hb : (c.isDigit || (c = '.' && cs.head?.any Char.isDigit)) = true := by
    simpa using hc
  unfold lexeme
  rw [hne.1]
  simp only [if_neg hne.2.1, if_neg hne.2.2.1, if_neg hne.2.2.2, if_pos hb]

lemma lexeme_name {c : Char} {cs : List Char} (hc : Ident.isNameStart c = true) :
    lexeme c cs = .ok (word .name
      (c :: cs.takeWhile Ident.isNameChar, cs.dropWhile Ident.isNameChar)) := by
  have hne : c ≠ '"' ∧ c ≠ '<' ∧ c ≠ '-' ∧ c ≠ '.' := by
    refine ⟨?_, ?_, ?_, ?_⟩ <;> (rintro rfl; exact absurd hc (by decide))
  have hb : (c.isDigit || (c = '.' && cs.head?.any Char.isDigit)) = false := by
    simp [not_isDigit_of_isNameStart hc, hne.2.2.2]
  unfold lexeme
  rw [symbol?_of_isNameStart hc]
  simp only [if_neg hne.1, if_neg hne.2.1, if_neg hne.2.2.1, hb, Bool.false_eq_true, if_false,
    if_pos hc]

lemma afterMinus_numeral {d : Char} {cs : List Char} (hd : d.isDigit = true ∨ d = '.') :
    afterMinus (d :: cs) = .ok (word .numeral
      ('-' :: (unsignedNumeral (d :: cs)).1, (unsignedNumeral (d :: cs)).2)) := by
  have hb : (d.isDigit || decide (d = '.')) = true := by simpa using hd
  have hne : d ≠ '>' ∧ d ≠ '-' := by
    rcases hd with h | rfl
    · constructor <;> (rintro rfl; exact absurd h (by decide))
    · decide
  rw [afterMinus]
  · rw [if_pos hb]
  · exact hne.1
  · exact hne.2

lemma lexeme_of_wordAt {kind : WordKind} {c : Char} {cs a rest : List Char}
    (h : WordAt kind c cs a rest) : lexeme c cs = .ok (.word kind (String.ofList a), rest) := by
  cases h with
  | quoted h => simp [lexeme, symbol?, h, word]
  | html h => simp [lexeme, symbol?, h, word]
  | negative hd h =>
    have hminus (cs : List Char) : lexeme '-' cs = afterMinus cs := rfl
    rw [hminus, afterMinus_numeral hd, h]
    rfl
  | numeral hc h => rw [lexeme_numeral hc, h]; rfl
  | name hc => rw [lexeme_name hc]; rfl

theorem lexeme_word_iff {kind : WordKind} {c : Char} {cs rest : List Char} {text : String} :
    lexeme c cs = .ok (.word kind text, rest) ↔ WordAt kind c cs text.toList rest := by
  refine ⟨wordAt_of_lexeme, fun h => ?_⟩
  rw [lexeme_of_wordAt h, String.ofList_toList]

/-- A number that was read starts with the character it was read at and is read again. -/
lemma unsignedNumeral_again {c : Char} {cs a rest : List Char} (hc : c.isDigit = true ∨ c = '.')
    (h : unsignedNumeral (c :: cs) = (a, rest)) {more : List Char} (hm : Ends more) :
    ∃ b, a = c :: b ∧ b ++ rest = cs ∧ unsignedNumeral (c :: (b ++ more)) = (c :: b, more) := by
  have hne : (unsignedNumeral (c :: cs)).1 ≠ [] := unsignedNumeral_ne_nil hc
  have happ := unsignedNumeral_append (c :: cs)
  have hu := isUnsigned_unsignedNumeral (c :: cs)
  rw [h] at hne happ hu
  cases a with
  | nil => exact absurd rfl hne
  | cons d b =>
    obtain ⟨rfl, hb⟩ : d = c ∧ b ++ rest = cs := by simpa using happ
    exact ⟨b, rfl, hb, unsignedNumeral_extend hu hm⟩

/-- A word is read again in front of any text that it does not run into. -/
theorem WordAt.again {kind : WordKind} {c : Char} {cs a rest : List Char}
    (h : WordAt kind c cs a rest) {more : List Char} (hm : Ends more) :
    ∃ b, a = c :: b ∧ b ++ rest = cs ∧ WordAt kind c (b ++ more) a more := by
  cases h with
  | @quoted cs a rest h =>
    obtain ⟨body, hbody, rfl⟩ := isQuotedBody_of_quotedTail h
    refine ⟨body ++ ['"'], rfl, quotedTail_append h, .quoted ?_⟩
    rw [List.append_assoc, List.singleton_append]
    exact quotedTail_of_isQuotedBody hbody more
  | @html cs a rest h =>
    exact ⟨a, rfl, htmlTail_append h, .html (htmlTail_extend (htmlTail_alone h) more)⟩
  | @negative d cs a rest hd h =>
    obtain ⟨b, rfl, rfl, hb⟩ := unsignedNumeral_again hd h hm
    exact ⟨d :: b, rfl, rfl, .negative hd hb⟩
  | numeral hc h =>
    obtain ⟨b, rfl, rfl, hb⟩ := unsignedNumeral_again (hc.imp id And.left) h hm
    refine ⟨b, rfl, rfl, .numeral (hc.imp id fun hp => ⟨hp.1, ?_⟩) hb⟩
    -- behind a point the number has at least the digit that was seen there
    obtain ⟨rfl, hdigit⟩ := hp
    cases b with
    | nil =>
      cases rest with
      | nil => simp at hdigit
      | cons d rest =>
        have hpoint : Char.isDigit '.' = false := rfl
        simp_all [unsignedNumeral]
    | cons d b => simpa using hdigit
  | @name c cs hc =>
    refine ⟨cs.takeWhile Ident.isNameChar, rfl, List.takeWhile_append_dropWhile, ?_⟩
    have hmore : ∀ d ∈ more.head?, Ident.isNameChar d = false := fun d hd => (hm d hd).1
    obtain ⟨ht, hd⟩ := takeWhile_dropWhile_append (mem_takeWhile Ident.isNameChar cs) hmore
    have hname := @WordAt.name c (cs.takeWhile Ident.isNameChar ++ more) hc
    rwa [ht, hd] at hname

/-! ### Texts that go on -/

lemma unsignedNumeral_append_right (cs : List Char) {more : List Char} (hm : Ends more) :
    unsignedNumeral (cs ++ more) = ((unsignedNumeral cs).1, (unsignedNumeral cs).2 ++ more) := by
  have hdigit : ∀ c ∈ more.head?, c.isDigit = false := fun c hc => (hm.head c hc).1
  obtain ⟨ht, hd⟩ := takeWhile_dropWhile_extend cs hdigit
  unfold unsignedNumeral
  rw [ht, hd]
  cases cs.dropWhile Char.isDigit with
  | nil =>
    cases more with
    | nil => rfl
    | cons c more =>
      have hpoint := hm.ne_point
      simp [hpoint]
  | cons c rest =>
    by_cases hpoint : c = '.'
    · subst hpoint
      obtain ⟨ht', hd'⟩ := takeWhile_dropWhile_extend rest hdigit
      simp [ht', hd']
    · simp [hpoint]

/-- A word is read the same where the text goes on with what it does not run into. -/
theorem WordAt.extend {kind : WordKind} {c : Char} {cs a rest : List Char}
    (h : WordAt kind c cs a rest) {more : List Char} (hm : Ends more) :
    WordAt kind c (cs ++ more) a (rest ++ more) := by
  cases h with
  | @quoted cs a rest h =>
    obtain ⟨body, hbody, rfl⟩ := isQuotedBody_of_quotedTail h
    have hcut := quotedTail_of_isQuotedBody hbody (rest ++ more)
    rw [← quotedTail_append h]
    exact .quoted (by simpa using hcut)
  | html h => exact .html (htmlTail_extend h more)
  | @negative d cs a rest hd h =>
    have hcut := unsignedNumeral_append_right (d :: cs) hm
    rw [h] at hcut
    exact .negative hd hcut
  | numeral hc h =>
    have hcut := unsignedNumeral_append_right (c :: cs) hm
    rw [h] at hcut
    refine .numeral (hc.imp id fun hp => ⟨hp.1, ?_⟩) hcut
    cases cs with
    | nil => simp at hp
    | cons d cs => exact hp.2
  | name hc =>
    have hmore : ∀ d ∈ more.head?, Ident.isNameChar d = false := fun d hd => (hm d hd).1
    obtain ⟨ht, hd⟩ := takeWhile_dropWhile_extend cs hmore
    rw [← ht, ← hd]
    exact .name hc

lemma lexeme_symbol_iff {s : Symbol} {c : Char} {cs rest : List Char} :
    lexeme c cs = .ok (.symbol s, rest) ↔ symbol? c = some s ∧ cs = rest ∨
      c = '-' ∧ (s = .arrow ∧ cs = '>' :: rest ∨ s = .line ∧ cs = '-' :: rest) := by
  constructor
  · intro h
    unfold lexeme at h
    split at h
    · rename_i hs
      cases h
      exact .inl ⟨hs, rfl⟩
    split at h
    · split at h <;> simp [word] at h
    split at h
    · split at h <;> simp [word] at h
    split at h
    · rename_i hc
      refine .inr ⟨hc, ?_⟩
      unfold afterMinus at h
      split at h
      · cases h
        exact .inl ⟨rfl, rfl⟩
      · cases h
        exact .inr ⟨rfl, rfl⟩
      · split at h <;> simp [word] at h
      · simp at h
    split at h
    · simp [word] at h
    split at h <;> simp [word] at h
  · rintro (⟨hs, rfl⟩ | ⟨rfl, ⟨rfl, rfl⟩ | ⟨rfl, rfl⟩⟩)
    · unfold lexeme
      rw [hs]
    · rfl
    · rfl

/-- A lexeme is read the same where the text goes on with what no word runs into. -/
theorem lexeme_extend {c : Char} {cs rest : List Char} {x : Lexeme}
    (h : lexeme c cs = .ok (x, rest)) {more : List Char} (hm : Ends more) :
    lexeme c (cs ++ more) = .ok (x, rest ++ more) := by
  cases x with
  | word kind text =>
    rw [lexeme_word_iff] at h ⊢
    exact h.extend hm
  | symbol s =>
    rw [lexeme_symbol_iff] at h ⊢
    rcases h with ⟨hs, rfl⟩ | ⟨hc, ⟨hs, rfl⟩ | ⟨hs, rfl⟩⟩
    · exact .inl ⟨hs, rfl⟩
    · exact .inr ⟨hc, .inl ⟨hs, rfl⟩⟩
    · exact .inr ⟨hc, .inr ⟨hs, rfl⟩⟩

end DotGraph.Scan
