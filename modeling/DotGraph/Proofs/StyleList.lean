import DotGraph.Proofs.AttributeMerge
import DotGraph.Proofs.WrittenIdent
import Mathlib.Data.List.DropRight

/-!
# Style lists

The tokens of the style attribute, which stand between commas. Adding tokens appends those that
are new, each once and in order, and keeps every other attribute. Whatever the first value was,
the text that is set reads as the list it was joined from: it ends in a token, so that it is no
literal, and no token holds a comma.
-/

namespace DotGraph

/-! ### Parts of a text -/

namespace Text

lemma split_ne_nil (separator : Char) (cs : List Char) : split separator cs ≠ [] := by
  cases cs with
  | nil => simp [split]
  | cons c cs =>
    rw [split]
    split
    · simp
    · split <;> simp

lemma split_of_notMem {separator : Char} {cs : List Char} (h : separator ∉ cs) :
    split separator cs = [cs] := by
  induction cs with
  | nil => rfl
  | cons c cs ih =>
    obtain ⟨hc, hcs⟩ := not_or.1 (mt List.mem_cons.2 h)
    rw [split, if_neg (Ne.symm hc), ih hcs]

lemma split_append (separator : Char) (as bs : List Char) :
    split separator (as ++ separator :: bs) = split separator as ++ split separator bs := by
  induction as with
  | nil => simp [split]
  | cons a as ih =>
    rw [List.cons_append, split, split.eq_def separator (a :: as)]
    by_cases h : a = separator
    · simp [h, ih]
    · obtain ⟨part, parts, hparts⟩ := List.exists_cons_of_ne_nil (split_ne_nil separator as)
      simp [h, ih, hparts]

lemma notMem_of_mem_split {separator : Char} {cs part : List Char}
    (h : part ∈ split separator cs) : separator ∉ part := by
  induction cs generalizing part with
  | nil =>
    rw [List.mem_singleton.1 h]
    exact List.not_mem_nil
  | cons c cs ih =>
    rw [split] at h
    by_cases hc : c = separator
    · rw [if_pos hc] at h
      rcases List.mem_cons.1 h with rfl | h
      · exact List.not_mem_nil
      · exact ih h
    · obtain ⟨first, parts, hparts⟩ := List.exists_cons_of_ne_nil (split_ne_nil separator cs)
      rw [if_neg hc, hparts] at h
      rw [hparts] at ih
      rcases List.mem_cons.1 h with rfl | h
      · exact mt List.mem_cons.1 (not_or.2 ⟨Ne.symm hc, ih List.mem_cons_self⟩)
      · exact ih (List.mem_cons_of_mem _ h)

lemma strip_strip (p : Char → Bool) (cs : List Char) : strip p (strip p cs) = strip p cs := by
  have hprefix : strip p cs <+: cs.dropWhile p := List.rdropWhile_prefix p _
  have hfront : (strip p cs).dropWhile p = strip p cs := by
    cases hs : strip p cs with
    | nil => rfl
    | cons c rest =>
      rw [hs] at hprefix
      obtain ⟨more, hmore⟩ := hprefix
      have hc : p c = false := Scan.head_dropWhile p cs c (by rw [← hmore]; rfl)
      rw [List.dropWhile_cons_of_neg (by simp [hc])]
  conv_lhs => rw [strip, hfront]
  exact List.rdropWhile_idempotent p (cs.dropWhile p)

lemma trim_trim (cs : List Char) : trim (trim cs) = trim cs := strip_strip isBlank cs

lemma mem_of_mem_trim {c : Char} {cs : List Char} (h : c ∈ trim cs) : c ∈ cs :=
  (List.dropWhile_sublist isBlank).mem ((List.rdropWhile_prefix isBlank _).mem h)

end Text

namespace Attributes

/-! ### Tokens and their text -/

def trimmed (token : String) : String := String.ofList (Text.trim token.toList)

/-- A text as it stands in a style list. -/
structure IsStyleToken (token : String) : Prop where
  ne_empty : token ≠ ""
  trimmed_eq : trimmed token = token
  comma : ',' ∉ token.toList

/-- A text that can be added as one token: it would neither be cut nor be taken for a literal. -/
structure IsPlainToken (token : String) : Prop where
  comma : ',' ∉ token.toList
  quote : '"' ∉ token.toList

instance (token : String) : Decidable (IsPlainToken token) :=
  decidable_of_iff (',' ∉ token.toList ∧ '"' ∉ token.toList)
    ⟨fun h => ⟨h.1, h.2⟩, fun h => ⟨h.comma, h.quote⟩⟩

lemma trimmed_trimmed (token : String) : trimmed (trimmed token) = trimmed token := by
  rw [trimmed, trimmed, String.toList_ofList, Text.trim_trim]

lemma mem_of_mem_trimmed {c : Char} {token : String} (h : c ∈ (trimmed token).toList) :
    c ∈ token.toList := by
  rw [trimmed, String.toList_ofList] at h
  exact Text.mem_of_mem_trim h

lemma IsPlainToken.isStyleToken {token : String} (h : IsPlainToken token)
    (hne : trimmed token ≠ "") : IsStyleToken (trimmed token) :=
  ⟨hne, trimmed_trimmed token, fun hc => h.comma (mem_of_mem_trimmed hc)⟩

lemma styleTokens_append (s t : String) :
    styleTokens (s ++ "," ++ t) = styleTokens s ++ styleTokens t := by
  have hsplit : (s ++ "," ++ t).toList = s.toList ++ ',' :: t.toList := by simp
  rw [styleTokens, hsplit, Text.split_append]
  simp [styleTokens]

lemma isStyleToken_of_mem {text token : String} (h : token ∈ styleTokens text) :
    IsStyleToken token := by
  obtain ⟨part, hpart, rfl⟩ := List.mem_map.1 h
  obtain ⟨hmem, hne⟩ := List.mem_filter.1 hpart
  obtain ⟨cut, hcut, rfl⟩ := List.mem_map.1 hmem
  refine ⟨?_, ?_, ?_⟩
  · simpa using hne
  · rw [trimmed, String.toList_ofList, Text.trim_trim]
  · rw [String.toList_ofList]
    exact fun hc => Text.notMem_of_mem_split hcut (Text.mem_of_mem_trim hc)

lemma IsStyleToken.styleTokens_eq {token : String} (h : IsStyleToken token) :
    styleTokens token = [token] := by
  have htrim : Text.trim token.toList = token.toList := by
    rw [← String.toList_ofList (l := Text.trim token.toList), ← trimmed, h.trimmed_eq]
  simp [styleTokens, Text.split_of_notMem h.comma, htrim, h.ne_empty]

/-- A list is read back from the text that it is joined to. -/
lemma styleTokens_intercalate {tokens : List String} (h : ∀ t ∈ tokens, IsStyleToken t) :
    styleTokens (String.intercalate "," tokens) = tokens := by
  induction tokens with
  | nil => rfl
  | cons token tokens ih =>
    obtain ⟨htoken, htokens⟩ := List.forall_mem_cons.1 h
    cases tokens with
    | nil => exact htoken.styleTokens_eq
    | cons other tokens =>
      rw [String.intercalate_cons_cons, styleTokens_append, htoken.styleTokens_eq, ih htokens]
      rfl

lemma exists_intercalate_concat (tokens : List String) (token : String) :
    ∃ front, String.intercalate "," (tokens ++ [token]) = front ++ token := by
  induction tokens with
  | nil => exact ⟨"", by simp⟩
  | cons other tokens ih =>
    obtain ⟨front, hfront⟩ := ih
    refine ⟨other ++ "," ++ front, ?_⟩
    rw [List.cons_append, String.intercalate_cons_of_ne_nil (by simp), hfront,
      ← String.append_assoc]

/-- A text that does not end in a quote is no quoted literal. -/
lemma unquoted_of_last {text : String} (h : text.toList.getLast? ≠ some '"') :
    (⟨text⟩ : Ident).unquoted = text := by
  cases hbody : Ident.quotedBody? text.toList with
  | none => simp only [Ident.unquoted, hbody]
  | some body =>
    have hquoted : (⟨text⟩ : Ident).isQuoted = true := by rw [Ident.isQuoted, hbody]; rfl
    obtain ⟨inner, hinner⟩ := Ident.exists_body_of_isQuoted hquoted
    rw [show text.toList = _ from hinner, ← List.cons_append, List.getLast?_concat] at h
    exact absurd rfl h

/-- A joined text is taken as it stands, because it ends in its last token. -/
lemma unquoted_intercalate {tokens : List String} {token : String} (hne : token ≠ "")
    (hquote : '"' ∉ token.toList) :
    (⟨String.intercalate "," (tokens ++ [token])⟩ : Ident).unquoted =
      String.intercalate "," (tokens ++ [token]) := by
  apply unquoted_of_last
  obtain ⟨front, hfront⟩ := exists_intercalate_concat tokens token
  have hlist : token.toList ≠ [] := by simpa using hne
  rw [hfront, String.toList_append, List.getLast?_append_of_ne_nil _ hlist]
  exact fun hlast => hquote (List.mem_of_getLast? hlast)

/-! ### One token -/

/-- The style tokens of a store; none where the style is not there or has no value. -/
def styleList (a : Attributes) : List String := (a.style.map styleTokens).getD []

/-- The tokens that are new to the list of a store, each where it stands first. -/
def newStyles (a : Attributes) (tokens : List String) : List String :=
  ((tokens.map trimmed).filter fun t => t ≠ "" ∧ t ∉ a.styleList).eraseDups

variable {a : Attributes} {token : String} {tokens : List String}

lemma isStyleToken_of_mem_styleList (h : token ∈ a.styleList) : IsStyleToken token := by
  rw [styleList] at h
  cases hs : a.style with
  | none => simp [hs] at h
  | some text =>
    rw [hs] at h
    exact isStyleToken_of_mem h

lemma addStyle_of_old (h : trimmed token = "" ∨ trimmed token ∈ a.styleList) :
    a.addStyle token = a := by
  unfold addStyle
  rw [if_pos]
  simpa [trimmed, styleList] using h

lemma addStyle_of_new (h : ¬ (trimmed token = "" ∨ trimmed token ∈ a.styleList)) :
    a.addStyle token = a.set styleName
      (.text ⟨String.intercalate "," (a.styleList ++ [trimmed token])⟩) := by
  unfold addStyle
  rw [if_neg]
  · rfl
  simpa [trimmed, styleList] using h

lemma styleList_addStyle_of_new (hplain : IsPlainToken token)
    (h : ¬ (trimmed token = "" ∨ trimmed token ∈ a.styleList)) :
    (a.addStyle token).styleList = a.styleList ++ [trimmed token] := by
  obtain ⟨hne, -⟩ := not_or.1 h
  have hstyle : (a.addStyle token).style =
      some (String.intercalate "," (a.styleList ++ [trimmed token])) := by
    rw [addStyle_of_new h, style, ident?, get?_set, if_pos rfl]
    exact congrArg some (unquoted_intercalate hne fun hq => hplain.quote (mem_of_mem_trimmed hq))
  rw [styleList, hstyle]
  apply styleTokens_intercalate
  intro t ht
  rcases List.mem_append.1 ht with ht | ht
  · exact isStyleToken_of_mem_styleList ht
  · rw [List.mem_singleton.1 ht]
    exact hplain.isStyleToken hne

/-- Only a token that is empty or there already leaves the store as it is. -/
lemma addStyle_eq_self_iff (hplain : IsPlainToken token) :
    a.addStyle token = a ↔ trimmed token = "" ∨ trimmed token ∈ a.styleList := by
  refine ⟨fun h => ?_, addStyle_of_old⟩
  by_contra hnew
  have hlist := styleList_addStyle_of_new hplain hnew
  rw [h] at hlist
  simp at hlist

/-! ### Any number of tokens -/

def addStyles (a : Attributes) (tokens : List String) : Attributes := tokens.foldl addStyle a

lemma addStyles_cons (a : Attributes) (token : String) (tokens : List String) :
    a.addStyles (token :: tokens) = (a.addStyle token).addStyles tokens := by
  rw [addStyles, addStyles, List.foldl_cons]

lemma newStyles_cons_of_old (h : trimmed token = "" ∨ trimmed token ∈ a.styleList) :
    a.newStyles (token :: tokens) = a.newStyles tokens := by
  rw [newStyles, List.map_cons, List.filter_cons_of_neg, newStyles]
  simpa [or_iff_not_imp_left] using h

lemma newStyles_cons_of_new (hplain : IsPlainToken token)
    (h : ¬ (trimmed token = "" ∨ trimmed token ∈ a.styleList)) :
    a.newStyles (token :: tokens) = trimmed token :: (a.addStyle token).newStyles tokens := by
  rw [newStyles, List.map_cons, List.filter_cons_of_pos (by simpa using h), List.eraseDups_cons,
    List.filter_filter, newStyles, styleList_addStyle_of_new hplain h]
  congr 2
  apply List.filter_congr
  intro t _
  rw [Bool.eq_iff_iff]
  simp only [List.mem_append, List.mem_singleton, not_or, Bool.and_eq_true, Bool.not_eq_true',
    beq_eq_false_iff_ne, decide_eq_true_eq]
  exact ⟨fun ⟨hother, hne, hmem⟩ => ⟨hne, hmem, hother⟩,
    fun ⟨hne, hmem, hother⟩ => ⟨hother, hne, hmem⟩⟩

/-- What adding tokens makes of a store. -/
structure IsStyledWith (a : Attributes) (tokens : List String) (b : Attributes) : Prop where
  list : b.styleList = a.styleList ++ a.newStyles tokens
  names : b.names =
    if styleName ∈ a.names ∨ a.newStyles tokens = [] then a.names else a.names ++ [styleName]
  others : ∀ name, name ≠ styleName → b.get? name = a.get? name
  unchanged : a.newStyles tokens = [] → b = a

lemma isStyledWith_nil (a : Attributes) : IsStyledWith a [] a where
  list := (List.append_nil _).symm
  names := by rw [if_pos (.inr rfl)]
  others _ _ := rfl
  unchanged _ := rfl

lemma isStyledWith_cons_of_old {b : Attributes}
    (h : trimmed token = "" ∨ trimmed token ∈ a.styleList) (hb : IsStyledWith a tokens b) :
    IsStyledWith a (token :: tokens) b := by
  have hsame : a.newStyles (token :: tokens) = a.newStyles tokens := newStyles_cons_of_old h
  refine ⟨?_, ?_, hb.others, ?_⟩
  · rw [hsame]
    exact hb.list
  · rw [hsame]
    exact hb.names
  · rw [hsame]
    exact hb.unchanged

lemma isStyledWith_cons_of_new {b : Attributes} (hplain : IsPlainToken token)
    (h : ¬ (trimmed token = "" ∨ trimmed token ∈ a.styleList))
    (hb : IsStyledWith (a.addStyle token) tokens b) : IsStyledWith a (token :: tokens) b := by
  have hnew : a.newStyles (token :: tokens) =
      trimmed token :: (a.addStyle token).newStyles tokens := newStyles_cons_of_new hplain h
  have hlist := styleList_addStyle_of_new hplain h
  have hset := addStyle_of_new h
  refine ⟨?_, ?_, ?_, ?_⟩
  · rw [hb.list, hlist, hnew, List.append_assoc, List.singleton_append]
  · -- the name is there once the first new token is added
    have hthere : styleName ∈ (a.addStyle token).names := by
      rw [hset, names_set]
      split_ifs with hmem
      · exact hmem
      · simp
    rw [hb.names, if_pos (.inl hthere), hset, names_set]
    simp [hnew]
  · intro name hname
    rw [hb.others name hname, hset, get?_set, if_neg hname.symm]
  · rw [hnew]
    intro hnil
    exact absurd hnil (List.cons_ne_nil _ _)

/-- Tokens that are new are appended to the style list, each once and in order. A token that is
empty or there already changes nothing, at any time. The style stays where it stands or becomes
the last attribute, and the other attributes stay as they are. -/
theorem isStyledWith_addStyles (a : Attributes) (tokens : List String)
    (h : ∀ token ∈ tokens, IsPlainToken token) :
    IsStyledWith a tokens (a.addStyles tokens) ∧
      ∀ token, IsPlainToken token → ((a.addStyles tokens).addStyle token = a.addStyles tokens ↔
        trimmed token = "" ∨ trimmed token ∈ (a.addStyles tokens).styleList) := by
  refine ⟨?_, fun token hplain => addStyle_eq_self_iff hplain⟩
  induction tokens generalizing a with
  | nil => exact isStyledWith_nil a
  | cons token tokens ih =>
    obtain ⟨hplain, htokens⟩ := List.forall_mem_cons.1 h
    rw [addStyles_cons]
    by_cases hold : trimmed token = "" ∨ trimmed token ∈ a.styleList
    · rw [addStyle_of_old hold]
      exact isStyledWith_cons_of_old hold (ih a htokens)
    · exact isStyledWith_cons_of_new hplain hold (ih (a.addStyle token) htokens)

/-- The first value is a literal whose text starts with a quote and holds an empty part. -/
theorem isStyledWith_addStyles_quoted :
    let a := ofList [(⟨"label"⟩, .implicit), (styleName, .text ⟨"\"\\\"x ,, bold\""⟩),
      (⟨"color"⟩, .text ⟨"red"⟩)]
    let tokens := ["", " dashed ", "bold", "dashed", "\ttapered"]
    (∀ token ∈ tokens, IsPlainToken token) ∧ a.styleList = ["\"x", "bold"] ∧
      a.newStyles tokens = ["dashed", "tapered"] ∧
      (a.addStyles tokens).get? styleName = some (.text ⟨"\"x,bold,dashed,tapered"⟩) ∧
      IsStyledWith a tokens (a.addStyles tokens) ∧
      ∀ token, IsPlainToken token → ((a.addStyles tokens).addStyle token = a.addStyles tokens ↔
        trimmed token = "" ∨ trimmed token ∈ (a.addStyles tokens).styleList) := by
  intro a tokens
  have hplain : ∀ token ∈ tokens, IsPlainToken token := by decide +kernel
  exact ⟨hplain, by decide +kernel, by decide +kernel, by decide +kernel,
    isStyledWith_addStyles a tokens hplain⟩

end Attributes

end DotGraph
