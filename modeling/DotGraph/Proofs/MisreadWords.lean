import DotGraph.Proofs.CanonicalIdent
import DotGraph.Proofs.Misread

/-!
# Misread words

How a word reads whose octets were taken for another encoding. Literals and numerals stay one
word of the same kind. A name may lose blanks at its front, and with them its first letter, so
that it falls apart into several words.
-/

namespace DotGraph.Scan

open Text

lemma isNameStart_beyond {c : Char} (hc : 0x80 ≤ c.toNat) : Ident.isNameStart c = true :=
  isNameStart_iff.2 (.inr (.inr (.inr hc)))

lemma isNameChar_beyond {c : Char} (hc : 0x80 ≤ c.toNat) : Ident.isNameChar c = true := by
  rw [Ident.isNameChar, isNameStart_beyond hc, Bool.true_or]

lemma ne_of_beyond {c d : Char} (hc : 0x80 ≤ c.toNat) (hd : d.toNat < 0x80) : c ≠ d := by
  rintro rfl
  omega

/-! ### Quoted literals -/

lemma isQuotedBody_cons_iff {c : Char} {cs : List Char} (hc : 0x80 ≤ c.toNat) :
    IsQuotedBody (c :: cs) ↔ IsQuotedBody cs := by
  constructor
  · intro h
    cases h with
    | escaped => exact absurd rfl (ne_of_beyond hc (by decide))
    | char _ _ h => exact h
  · exact .char (ne_of_beyond hc (by decide)) (ne_of_beyond hc (by decide))

lemma isQuotedBody_append_iff {as cs : List Char} (h : ∀ c ∈ as, 0x80 ≤ c.toNat) :
    IsQuotedBody (as ++ cs) ↔ IsQuotedBody cs := by
  induction as with
  | nil => rfl
  | cons a as ih =>
    rw [List.cons_append, isQuotedBody_cons_iff (h a List.mem_cons_self),
      ih fun c hc => h c (List.mem_cons_of_mem _ hc)]

lemma isQuotedBody_escaped_iff {c : Char} {cs : List Char} :
    IsQuotedBody ('\\' :: c :: cs) ↔ IsQuotedBody cs := by
  constructor
  · intro h
    cases h with
    | escaped _ h => exact h
    | char _ hb => exact absurd rfl hb
  · exact .escaped c

lemma isQuotedBody_char_iff {c : Char} {cs : List Char} (hb : c ≠ '\\') :
    IsQuotedBody (c :: cs) ↔ c ≠ '"' ∧ IsQuotedBody cs := by
  constructor
  · intro h
    cases h with
    | escaped => exact absurd rfl hb
    | char hq _ h => exact ⟨hq, h⟩
  · rintro ⟨hq, h⟩
    exact .char hq hb h

theorem isQuotedBody_misread : (cs : List Char) → (IsQuotedBody (misread cs) ↔ IsQuotedBody cs)
  | [] => Iff.rfl
  | c :: cs => by
    have ih := isQuotedBody_misread cs
    by_cases hc : c.toNat < 0x80
    · rw [misread_ascii hc]
      by_cases hb : c = '\\'
      · subst hb
        cases cs with
        | nil => rfl
        | cons d cs =>
          have ih' := isQuotedBody_misread cs
          rw [isQuotedBody_escaped_iff]
          by_cases hd : d.toNat < 0x80
          · rw [misread_ascii hd, isQuotedBody_escaped_iff, ih']
          · -- the backslash keeps the first of several characters in
            obtain ⟨a, b, more, he, -, -, hmem⟩ := misread_singleton_beyond (Nat.not_lt.1 hd)
            rw [misread_cons, he, List.cons_append, isQuotedBody_escaped_iff,
              isQuotedBody_append_iff fun e he => hmem e (List.mem_cons_of_mem _ he), ih']
      · rw [isQuotedBody_char_iff hb, isQuotedBody_char_iff hb, ih]
    · obtain ⟨a, b, more, he, -, -, hmem⟩ := misread_singleton_beyond (Nat.not_lt.1 hc)
      rw [misread_cons, he, isQuotedBody_append_iff hmem, isQuotedBody_cons_iff (Nat.not_lt.1 hc),
        ih]

/-! ### HTML literals -/

lemma isHtmlTail_append_iff {depth : Nat} {as cs : List Char} (h : ∀ c ∈ as, 0x80 ≤ c.toNat) :
    IsHtmlTail depth (as ++ cs) ↔ IsHtmlTail depth cs := by
  induction as with
  | nil => rfl
  | cons a as ih =>
    have ha := h a List.mem_cons_self
    rw [List.cons_append, isHtmlTail_char_iff (ne_of_beyond ha (by decide))
      (ne_of_beyond ha (by decide)), ih fun c hc => h c (List.mem_cons_of_mem _ hc)]

lemma misread_eq_nil_iff {cs : List Char} : misread cs = [] ↔ cs = [] :=
  ⟨fun h => misread_injective h, fun h => congrArg misread h⟩

theorem isHtmlTail_misread (depth : Nat) (cs : List Char) :
    IsHtmlTail depth (misread cs) ↔ IsHtmlTail depth cs := by
  induction cs generalizing depth with
  | nil => rfl
  | cons c cs ih =>
    by_cases hc : c.toNat < 0x80
    · rw [misread_ascii hc]
      by_cases ho : c = '<'
      · subst ho
        rw [isHtmlTail_open_iff, isHtmlTail_open_iff, ih]
      by_cases hg : c = '>'
      · subst hg
        cases depth with
        | zero => rw [isHtmlTail_last_iff, isHtmlTail_last_iff, misread_eq_nil_iff]
        | succ depth => rw [isHtmlTail_close_iff, isHtmlTail_close_iff, ih]
      · rw [isHtmlTail_char_iff ho hg, isHtmlTail_char_iff ho hg, ih]
    · have hc := Nat.not_lt.1 hc
      obtain ⟨a, b, more, he, -, -, hmem⟩ := misread_singleton_beyond hc
      rw [misread_cons, he, isHtmlTail_append_iff hmem, isHtmlTail_char_iff
        (ne_of_beyond hc (by decide)) (ne_of_beyond hc (by decide)), ih]

/-! ### Names and numerals -/

lemma isNameChar_of_isWord {text : String} (hw : IsWord .name text) :
    ∀ c ∈ text.toList, Ident.isNameChar c = true := by
  have htext := hw.name_text
  intro c hc
  cases ht : text.toList with
  | nil => simp [ht] at hc
  | cons d ds =>
    rw [ht, Ident.isNameText, Bool.and_eq_true, List.all_eq_true] at htext
    rw [ht, List.mem_cons] at hc
    rcases hc with rfl | hc
    · rw [Ident.isNameChar, htext.1, Bool.true_or]
    · exact htext.2 c hc

lemma nameChars_misread_iff {cs : List Char} :
    (∀ c ∈ misread cs, Ident.isNameChar c = true) ↔ ∀ c ∈ cs, Ident.isNameChar c = true := by
  constructor
  all_goals
    intro h c hc
    by_cases hascii : c.toNat < 0x80
    · exact h c (by simpa [mem_misread_iff hascii] using hc)
    · exact isNameChar_beyond (Nat.not_lt.1 hascii)

lemma isUnsigned_ascii {ds : List Char} (h : IsUnsigned ds) : ∀ c ∈ ds, c.toNat < 0x80 := by
  have hdigit {c : Char} (hc : c.isDigit = true) : c.toNat < 0x80 := by
    rw [isDigit_iff] at hc
    omega
  cases h with
  | whole hd => exact fun c hc => hdigit (hd c hc)
  | point hd he =>
    intro c hc
    rcases List.mem_append.1 hc with hc | hc
    · exact hdigit (hd c hc)
    · rcases List.mem_cons.1 hc with rfl | hc
      · decide
      · exact hdigit (he c hc)

lemma IsWord.numeral_ascii {text : String} (h : IsWord .numeral text) :
    ∀ c ∈ text.toList, c.toNat < 0x80 := by
  obtain ⟨ds, hu, -, ht | ⟨ht, -⟩⟩ := h.numeral_text
  · rw [ht, List.forall_mem_cons]
    exact ⟨by decide, isUnsigned_ascii hu⟩
  · rw [ht]
    exact isUnsigned_ascii hu

/-! ### What a word falls apart into -/

/-- The text reads as words with property `P`, in front of anything that it does not run into. -/
def ReadsAsWords (P : String → Prop) (cs : List Char) : Prop :=
  ∃ ws : List Lexeme, (∀ x ∈ ws, ∃ kind text, x = .word kind text ∧ P text) ∧
    ∀ more ys, Ends more → Reads more ys → Reads (cs ++ more) (ws ++ ys)

lemma infix_ofList (cs : List Char) : (String.ofList cs).toList <:+: cs := ⟨[], [], by simp⟩

lemma readsAsWords_of_isWord {P : String → Prop} {kind : WordKind} {text : String}
    (hw : IsWord kind text) (hP : P text) : ReadsAsWords P text.toList := by
  refine ⟨[.word kind text], ?_, fun more ys hm hr => hr.word hw hm⟩
  intro x hx
  rw [List.mem_singleton] at hx
  exact ⟨kind, text, hx, hP⟩

/-- Digits at the front of name characters are a numeral. -/
lemma reads_digits {c : Char} {cs more : List Char} {ys : List Lexeme} (hc : c.isDigit = true)
    (hcs : ∀ d ∈ cs, Ident.isNameChar d = true) (hm : Ends more)
    (hr : Reads ((c :: cs).dropWhile Char.isDigit ++ more) ys) :
    Reads (c :: cs ++ more)
      (.word .numeral (String.ofList ((c :: cs).takeWhile Char.isDigit)) :: ys) := by
  have hb : isBlank c = false := not_isBlank_of_isDigit hc
  have hrest : ∀ d ∈ ((c :: cs).dropWhile Char.isDigit ++ more).head?,
      d.isDigit = false ∧ d ≠ '.' := by
    intro d hd
    cases hrest : (c :: cs).dropWhile Char.isDigit with
    | nil =>
      rw [hrest, List.nil_append] at hd
      cases more with
      | nil => simp at hd
      | cons e more =>
        cases hd
        exact ⟨hm.not_digit, hm.ne_point⟩
    | cons e rest =>
      rw [hrest] at hd
      cases hd
      refine ⟨head_dropWhile Char.isDigit (c :: cs) d (by rw [hrest]; rfl), ?_⟩
      rw [List.dropWhile_cons_of_pos hc] at hrest
      have hmem : d ∈ cs := (List.dropWhile_sublist Char.isDigit).subset (by rw [hrest]; simp)
      have hname := hcs d hmem
      rintro rfl
      exact absurd hname (by decide)
  have hcut : unsignedNumeral (c :: (cs ++ more)) =
      ((c :: cs).takeWhile Char.isDigit, (c :: cs).dropWhile Char.isDigit ++ more) := by
    rw [← unsignedNumeral_whole (mem_takeWhile Char.isDigit (c :: cs)) hrest, ← List.append_assoc,
      List.takeWhile_append_dropWhile]
    rfl
  have hw : WordAt .numeral c (cs ++ more) _ _ := .numeral (.inl hc) hcut
  exact .lexeme hb (lexeme_word_iff.2 (by rw [String.toList_ofList]; exact hw)) hr

/-- Characters of names are blanks, then digits, then a name, each of which may be missing. -/
theorem readsAsWords_of_nameChars {P : String → Prop} {cs : List Char}
    (hcs : ∀ c ∈ cs, Ident.isNameChar c = true)
    (hP : ∀ text : String, text.toList <:+: cs → P text) : ReadsAsWords P cs := by
  induction hn : cs.length using Nat.strongRecOn generalizing cs with
  | ind n ih =>
    cases cs with
    | nil => exact ⟨[], by simp, fun _ _ _ hr => hr⟩
    | cons c cs =>
      by_cases hb : isBlank c = true
      · have htail : ∀ text : String, text.toList <:+: cs → P text :=
          fun text ht => hP text (ht.trans (List.suffix_cons c cs).isInfix)
        have hlen : cs.length < n := by rw [← hn]; exact Nat.lt_succ_self _
        obtain ⟨ws, hws, hr⟩ := ih _ hlen (fun d hd => hcs d (List.mem_cons_of_mem _ hd)) htail rfl
        exact ⟨ws, hws, fun more ys hm hreads => (hr more ys hm hreads).blank hb⟩
      have hb : isBlank c = false := by simpa using hb
      by_cases hs : Ident.isNameStart c = true
      · have hw := isWord_name hb hs fun d hd => hcs d (List.mem_cons_of_mem _ hd)
        have hwhole := readsAsWords_of_isWord hw (hP _ (infix_ofList _))
        rwa [String.toList_ofList] at hwhole
      · have hc : c.isDigit = true := by
          have := hcs c List.mem_cons_self
          rw [Ident.isNameChar, Bool.or_eq_true] at this
          exact this.resolve_left hs
        have hcs' : ∀ d ∈ cs, Ident.isNameChar d = true :=
          fun d hd => hcs d (List.mem_cons_of_mem _ hd)
        have hsub : (c :: cs).dropWhile Char.isDigit <:+ c :: cs := List.dropWhile_suffix _
        have hlen : ((c :: cs).dropWhile Char.isDigit).length < n := by
          rw [List.dropWhile_cons_of_pos hc, ← hn]
          exact Nat.lt_succ_of_le (List.dropWhile_suffix _).length_le
        obtain ⟨ws, hws, hr⟩ := ih _ hlen (fun d hd => hcs d (hsub.subset hd))
          (fun text ht => hP text (ht.trans hsub.isInfix)) rfl
        refine ⟨_ :: ws, ?_, fun more ys hm hreads =>
          reads_digits hc hcs' hm (hr more ys hm hreads)⟩
        rw [List.forall_mem_cons]
        refine ⟨⟨_, _, rfl, hP _ ?_⟩, hws⟩
        rw [String.toList_ofList]
        exact (List.takeWhile_prefix _).isInfix

/-- A word whose misreading is a word itself. -/
theorem readsAsWords_of_misread {P : String → Prop} {kind : WordKind} {text : String}
    {cs : List Char} (hw : IsWord kind text) (h : misread cs = text.toList)
    (hP : ∀ piece : String, piece.toList <:+: cs → (piece = "-." → text = "-.") → P piece) :
    ReadsAsWords P cs := by
  have hsame : P (String.ofList cs) := by
    apply hP _ (infix_ofList _)
    intro hcs
    rw [← String.toList_inj, String.toList_ofList] at hcs
    rw [← String.toList_inj, ← h, hcs]
    rfl
  have hwhole (hword : IsWord kind (String.ofList cs)) : ReadsAsWords P cs := by
    have := readsAsWords_of_isWord hword hsame
    rwa [String.toList_ofList] at this
  cases kind with
  | quoted =>
    obtain ⟨body, hbody, ht⟩ := isWord_quoted_iff.1 hw
    rw [ht] at h
    obtain ⟨front, rest, rfl, hfront, hrest⟩ := misread_split (a := []) (by decide) h
    rw [misread_eq_nil_iff] at hfront
    obtain ⟨inner, last, rfl, hinner, hlast⟩ := misread_split (by decide) hrest
    rw [misread_eq_nil_iff] at hlast
    subst hfront hlast
    rw [← hinner, isQuotedBody_misread] at hbody
    exact hwhole (isWord_quoted_iff.2 ⟨inner, hbody, by rw [String.toList_ofList]; rfl⟩)
  | html =>
    obtain ⟨tail, ht, htail⟩ := isWord_html_iff.1 hw
    rw [ht] at h
    obtain ⟨front, rest, rfl, hfront, hrest⟩ := misread_split (a := []) (by decide) h
    rw [misread_eq_nil_iff] at hfront
    subst hfront
    rw [← hrest, isHtmlTail_misread] at htail
    exact hwhole (isWord_html_iff.2 ⟨rest, by rw [String.toList_ofList]; rfl, htail⟩)
  | numeral =>
    rw [← misread_of_ascii hw.numeral_ascii] at h
    have hcs := misread_injective h
    subst hcs
    exact hwhole (by rwa [String.ofList_toList])
  | name =>
    have hnames : ∀ c ∈ cs, Ident.isNameChar c = true := by
      rw [← nameChars_misread_iff, h]
      exact isNameChar_of_isWord hw
    refine readsAsWords_of_nameChars hnames fun piece hpiece => hP piece hpiece ?_
    rintro rfl
    have hsign : '-' ∈ cs := hpiece.subset List.mem_cons_self
    exact absurd (hnames '-' hsign) (by decide)

/-- A word that is misread stays one word. -/
theorem readsAsWords_misread {P : String → Prop} {kind : WordKind} {text : String}
    (hw : IsWord kind text) (hP : P (String.ofList (misread text.toList))) :
    ReadsAsWords P (misread text.toList) := by
  have hwhole (hword : IsWord kind (String.ofList (misread text.toList))) :
      ReadsAsWords P (misread text.toList) := by
    have := readsAsWords_of_isWord hword hP
    rwa [String.toList_ofList] at this
  apply hwhole
  cases kind with
  | quoted =>
    obtain ⟨body, hbody, ht⟩ := isWord_quoted_iff.1 hw
    refine isWord_quoted_iff.2 ⟨misread body, (isQuotedBody_misread body).2 hbody, ?_⟩
    rw [String.toList_ofList, ht, misread_ascii (by decide), misread_append]
    rfl
  | html =>
    obtain ⟨tail, ht, htail⟩ := isWord_html_iff.1 hw
    refine isWord_html_iff.2 ⟨misread tail, ?_, (isHtmlTail_misread 0 tail).2 htail⟩
    rw [String.toList_ofList, ht, misread_ascii (by decide)]
  | numeral => rwa [misread_of_ascii hw.numeral_ascii, String.ofList_toList]
  | name =>
    have hnames := nameChars_misread_iff.2 (isNameChar_of_isWord hw)
    have hstart := hw.name_text
    obtain ⟨c, cs, ht, hb, -⟩ := hw
    rw [ht] at hnames hstart ⊢
    rw [Ident.isNameText, Bool.and_eq_true] at hstart
    by_cases hc : c.toNat < 0x80
    · rw [misread_ascii hc] at hnames ⊢
      exact isWord_name hb hstart.1 fun d hd => hnames d (List.mem_cons_of_mem _ hd)
    · obtain ⟨a, b, more, he, hlow, hhigh, -⟩ := misread_singleton_beyond (Nat.not_lt.1 hc)
      have hblank : isBlank a = false := by
        simp only [isBlank, Bool.or_eq_false_iff, Bool.and_eq_false_iff, decide_eq_false_iff_not,
          beq_eq_false_iff_ne]
        omega
      rw [misread_cons, he, List.cons_append] at hnames ⊢
      exact isWord_name hblank (isNameStart_beyond (by omega))
        fun d hd => hnames d (List.mem_cons_of_mem _ hd)

end DotGraph.Scan
