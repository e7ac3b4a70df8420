import DotGraph.Proofs.WrittenIdent
import Mathlib.Data.List.Induction

/-!
# Quoted text

Quoting makes a closed literal of any text: it is one token in front of whatever follows. Taking
the quotes off again gives back the text where no newline was replaced and no backslash was left
open in front of a quote or of the end.
-/

namespace DotGraph

open Scan

namespace Ident

/-! ### Literals that are closed -/

lemma newline_notMem_escape (escaping : Bool) (cs : List Char) : '\n' ∉ escape escaping cs := by
  induction cs generalizing escaping with
  | nil => cases escaping <;> simp [escape]
  | cons c cs ih =>
    have htail := ih (c == '\\' && !escaping)
    rw [escape]
    split_ifs with hq hn
    · simpa using htail
    · simpa using htail
    · simpa using ⟨Ne.symm hn, htail⟩

lemma newline_notMem_quote (text : String) : '\n' ∉ (quote text).text.toList := by
  have hbody := newline_notMem_escape false text.toList
  rw [quote, String.toList_ofList]
  simpa using hbody

end Ident

/-- A literal is read in front of any text, also of one that goes on like a word. -/
lemma Scan.IsWord.ofString_append {literal : String} (h : IsWord .quoted literal) (rest : String) :
    Tokens.ofString (literal ++ rest) =
      (tokensFrom (Position.advance {} literal.toList) rest.toList).map
        (Tokens.prepend [⟨.word .quoted literal, {}⟩]) := by
  obtain ⟨body, hbody, ht⟩ := isWord_quoted_iff.1 h
  have hlexeme : lexeme '"' (body ++ '"' :: rest.toList) =
      .ok (.word .quoted literal, rest.toList) := by
    rw [lexeme_word_iff, ht]
    exact .quoted (quotedTail_of_isQuotedBody hbody rest.toList)
  have hsplit : (literal ++ rest).toList = '"' :: (body ++ '"' :: rest.toList) := by
    rw [String.toList_append, ht]
    simp
  rw [Tokens.ofString, hsplit, tokensFrom_eq, skip_of_lexeme {} rfl hlexeme]
  simp only [hlexeme]
  rfl

namespace Ident

/-- The literal of any text is quoted and written as it stands. It holds no newline, and it is the
first token of every text that starts with it, and the only one of itself. -/
theorem quote_closed (text : String) :
    (quote text).isQuoted = true ∧ (quote text).toDot = (quote text).text ∧
      '\n' ∉ (quote text).text.toList ∧
      Tokens.ofString (quote text).text = .ok ⟨[⟨.word .quoted (quote text).text, {}⟩],
        Position.advance {} (quote text).text.toList⟩ ∧
      ∀ rest tokens, Tokens.ofString ((quote text).text ++ rest) = .ok tokens →
        tokens.list.head? = some ⟨.word .quoted (quote text).text, {}⟩ := by
  have hw : IsWord .quoted (quote text).text := isWord_quote text
  have hquoted : (quote text).isQuoted = true := isQuoted_of_isWord hw
  refine ⟨hquoted, toDot_of_verbatim (.inl hquoted), newline_notMem_quote text, hw.tokens, ?_⟩
  intro rest tokens h
  rw [hw.ofString_append] at h
  cases hrest : tokensFrom (Position.advance {} (quote text).text.toList) rest.toList with
  | error e => simp [hrest, Except.map] at h
  | ok others =>
    rw [hrest, Except.map, Except.ok.injEq] at h
    rw [← h]
    rfl

/-- A text of a backslash, a quote, a newline and a backslash, in front of a name and a literal. -/
theorem quote_closed_slashed : ∃ tokens,
    Tokens.ofString ((quote "\\\"\n\\").text ++ "b\"c\"") = .ok tokens ∧
      tokens.list.head? = some ⟨.word .quoted (quote "\\\"\n\\").text, {}⟩ := by
  have hread : Tokens.ofString ((quote "\\\"\n\\").text ++ "b\"c\"") =
      .ok ⟨[⟨.word .quoted "\"\\\"\\n\\\\\"", {}⟩, ⟨.word .name "b", ⟨8, 1, 9, false⟩⟩,
        ⟨.word .quoted "\"c\"", ⟨9, 1, 10, false⟩⟩], ⟨12, 1, 13, false⟩⟩ := by
    decide +kernel
  obtain ⟨-, -, -, -, hfirst⟩ := quote_closed "\\\"\n\\"
  exact ⟨_, hread, hfirst _ _ hread⟩

/-! ### Quotes that are taken off -/

/-- The number of backslashes that a text ends in. -/
def trailingBackslashes (cs : List Char) : Nat := (cs.reverse.takeWhile (· == '\\')).length

/-- Whether the text ends in a backslash that no other is paired with, where `escaping` says that
one stands in front of it. -/
def leavesOpen (escaping : Bool) (cs : List Char) : Bool :=
  cs.foldl (fun escaping c => c == '\\' && !escaping) escaping

/-- Nothing in the text is changed for good by escaping. -/
structure IsKept (escaping : Bool) (cs : List Char) : Prop where
  newline : '\n' ∉ cs
  quotes : ∀ before after, cs = before ++ '"' :: after → leavesOpen escaping before = false
  last : leavesOpen escaping cs = false

lemma trailingBackslashes_concat (cs : List Char) (c : Char) :
    trailingBackslashes (cs ++ [c]) = if c = '\\' then trailingBackslashes cs + 1 else 0 := by
  rw [trailingBackslashes, List.reverse_append, List.reverse_singleton, List.singleton_append,
    List.takeWhile_cons]
  by_cases hc : c = '\\' <;> simp [hc, trailingBackslashes]

lemma leavesOpen_concat (escaping : Bool) (cs : List Char) (c : Char) :
    leavesOpen escaping (cs ++ [c]) = (c == '\\' && !leavesOpen escaping cs) := by
  rw [leavesOpen, List.foldl_append]
  rfl

/-- Backslashes are paired from the left, so that one is open behind an odd number of them. -/
lemma leavesOpen_eq_false_iff (cs : List Char) :
    leavesOpen false cs = false ↔ trailingBackslashes cs % 2 = 0 := by
  induction cs using List.reverseRecOn with
  | nil => simp [leavesOpen, trailingBackslashes]
  | append_singleton cs c ih =>
    rw [leavesOpen_concat, trailingBackslashes_concat]
    by_cases hc : c = '\\'
    · simp only [hc, beq_self_eq_true, Bool.true_and, Bool.not_eq_false', if_true]
      rw [← Bool.not_eq_false, ih]
      omega
    · simp [hc]

lemma isKept_nil_iff {escaping : Bool} : IsKept escaping [] ↔ escaping = false :=
  ⟨fun h => h.last, fun h => ⟨by simp, by simp, h⟩⟩

lemma isKept_cons_iff {escaping : Bool} {c : Char} {cs : List Char} :
    IsKept escaping (c :: cs) ↔
      c ≠ '\n' ∧ (c = '"' → escaping = false) ∧ IsKept (c == '\\' && !escaping) cs := by
  constructor
  · intro h
    refine ⟨?_, ?_, ?_, ?_, h.last⟩
    · rintro rfl
      exact h.newline List.mem_cons_self
    · rintro rfl
      exact h.quotes [] cs rfl
    · exact fun hmem => h.newline (List.mem_cons_of_mem c hmem)
    · rintro before after rfl
      exact h.quotes (c :: before) after rfl
  · rintro ⟨hn, hq, h⟩
    refine ⟨?_, ?_, h.last⟩
    · simpa using ⟨hn.symm, h.newline⟩
    · intro before after heq
      rcases List.cons_eq_append_iff.1 heq with ⟨rfl, hhead⟩ | ⟨before, rfl, heq⟩
      · exact hq (List.cons.inj hhead).1.symm
      · exact h.quotes before after (List.cons.inj heq).2

lemma unescape_char {c : Char} (hb : c ≠ '\\') (cs : List Char) :
    unescape (c :: cs) = c :: unescape cs := by
  rw [unescape]
  rintro _ rfl
  exact absurd rfl hb

lemma unescape_backslash {cs : List Char} (hq : cs.head? ≠ some '"') :
    unescape ('\\' :: cs) = '\\' :: unescape cs := by
  rw [unescape]
  rintro ds - rfl
  exact hq rfl

/-- Where no backslash is open, escaped text does not start with a quote. -/
lemma head_escape_ne (cs : List Char) : (escape false cs).head? ≠ some '"' := by
  cases cs with
  | nil => simp [escape]
  | cons c cs =>
    rw [escape]
    split_ifs with hq hn
    · simp
    · simp
    · simpa using hq

/-- Escaped text is restored exactly where it is kept, also behind a backslash that is open. -/
lemma unescape_escape_iff (cs : List Char) :
    (unescape (escape false cs) = cs ↔ IsKept false cs) ∧
      (unescape ('\\' :: escape true cs) = '\\' :: cs ↔ IsKept true cs) := by
  -- a backslash leads from either state to the other, so both are carried along
  induction cs with
  | nil => simp [escape, unescape, isKept_nil_iff]
  | cons c cs ih =>
    obtain ⟨hplain, hopen⟩ := ih
    rw [isKept_cons_iff, isKept_cons_iff]
    by_cases hq : c = '"'
    · subst hq
      have hclosed : escape false ('"' :: cs) = '\\' :: '"' :: escape false cs := rfl
      have hescaped : escape true ('"' :: cs) = '"' :: escape false cs := rfl
      -- the backslash that was open is lost with the quote behind it
      rw [hclosed, hescaped, unescape]
      simp [hplain]
    by_cases hn : c = '\n'
    · subst hn
      have hnewline (escaping : Bool) :
          escape escaping ('\n' :: cs) = '\\' :: 'n' :: escape false cs := by
        simp [escape]
      rw [hnewline, hnewline, unescape_backslash (by simp), unescape_backslash (by simp),
        unescape_backslash (by simp)]
      simp
    by_cases hb : c = '\\'
    · subst hb
      have hclosed : escape false ('\\' :: cs) = '\\' :: escape true cs := rfl
      have hescaped : escape true ('\\' :: cs) = '\\' :: escape false cs := rfl
      have hpair : unescape ('\\' :: '\\' :: escape false cs) =
          '\\' :: '\\' :: unescape (escape false cs) := by
        rw [unescape_backslash (by simp), unescape_backslash (head_escape_ne cs)]
      rw [hclosed, hescaped, hpair]
      simp [hplain, hopen]
    · have hpaired : (c == '\\') = false := by simpa using hb
      have hsame (escaping : Bool) : escape escaping (c :: cs) = c :: escape false cs := by
        simp [escape, hq, hn, hpaired]
      rw [hsame, hsame, unescape_backslash (by simpa using hq), unescape_char hb, hpaired]
      simp [hq, hn, hplain]

lemma unquoted_quote (text : String) :
    (quote text).unquoted = String.ofList (unescape (escape false text.toList)) := by
  have hbody := quotedBody?_of_isQuotedBody (isQuotedBody_escape false text.toList)
  simp only [Bool.false_eq_true, if_false, List.nil_append] at hbody
  simp only [unquoted, quote, String.toList_ofList, hbody]

/-- Quoting a text and taking the quotes off gives back the text exactly where it holds no newline,
no quote behind an odd number of backslashes, and does not end in an odd number of them. -/
theorem unquoted_quote_eq_iff (text : String) :
    (quote text).unquoted = text ↔ '\n' ∉ text.toList ∧
      (∀ before after, text.toList = before ++ '"' :: after →
        trailingBackslashes before % 2 = 0) ∧
      trailingBackslashes text.toList % 2 = 0 := by
  have hkept : (quote text).unquoted = text ↔ IsKept false text.toList := by
    rw [unquoted_quote, ← (unescape_escape_iff text.toList).1, ← String.toList_inj,
      String.toList_ofList]
  simp only [hkept, ← leavesOpen_eq_false_iff]
  exact ⟨fun h => ⟨h.newline, h.quotes, h.last⟩, fun h => ⟨h.1, h.2.1, h.2.2⟩⟩

end Ident

end DotGraph
