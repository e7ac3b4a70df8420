import DotGraph.Proofs.CanonicalIdent

/-!
# Layouts

How a printed text is made up: blanks between lexemes, and words that are keywords or identifiers
of a vocabulary. A text that is laid out reads as its lexemes in front of anything.
-/

namespace DotGraph

open Scan Grammar

/-- The identifiers that a printed text may use, and the blanks beside those of ASCII. -/
structure Vocabulary where
  blanks : List Char
  ident : Ident → Prop
  canonical : ∀ x, ident x → x.IsCanonical

/-- No word runs into the text, which is not empty. -/
def Breaks (cs : List Char) : Prop := cs ≠ [] ∧ Ends cs

lemma Breaks.append {cs : List Char} (h : Breaks cs) (more : List Char) : Breaks (cs ++ more) := by
  obtain ⟨hne, hends⟩ := h
  cases cs with
  | nil => exact absurd rfl hne
  | cons c cs =>
    refine ⟨List.cons_ne_nil _ _, fun d hd => ?_⟩
    cases hd
    exact hends c rfl

lemma breaks_cons {c : Char} (hc : Ident.isNameChar c = false) (hp : c ≠ '.') (cs : List Char) :
    Breaks (c :: cs) :=
  ⟨List.cons_ne_nil _ _, ends_cons hc hp cs⟩

/-- The text is laid out as these lexemes, none of which is a plus sign. -/
inductive LaidOut (v : Vocabulary) : List Char → List Lexeme → Prop
  | nil : LaidOut v [] []
  | blank {c : Char} {cs : List Char} {xs : List Lexeme} (hb : Text.isBlank c = true)
      (hc : c.toNat < 0x80 ∨ c ∈ v.blanks) (h : LaidOut v cs xs) : LaidOut v (c :: cs) xs
  | symbol {c : Char} {s : Symbol} {cs : List Char} {xs : List Lexeme} (hs : symbol? c = some s)
      (hp : s ≠ .plus) (h : LaidOut v cs xs) : LaidOut v (c :: cs) (.symbol s :: xs)
  | arrow {cs : List Char} {xs : List Lexeme} (h : LaidOut v cs xs) :
      LaidOut v ('-' :: '>' :: cs) (.symbol .arrow :: xs)
  | line {cs : List Char} {xs : List Lexeme} (h : LaidOut v cs xs) :
      LaidOut v ('-' :: '-' :: cs) (.symbol .line :: xs)
  | keyword (k : Keyword) {cs : List Char} {xs : List Lexeme} (hc : Breaks cs)
      (h : LaidOut v cs xs) : LaidOut v (k.text.toList ++ cs) (.word .name k.text :: xs)
  | word {kind : WordKind} {x : Ident} {cs : List Char} {xs : List Lexeme}
      (hw : IsWord kind x.text) (hx : v.ident x) (hc : Breaks cs) (h : LaidOut v cs xs) :
      LaidOut v (x.text.toList ++ cs) (.word kind x.text :: xs)

lemma isWord_keyword (k : Keyword) : IsWord .name k.text := by
  cases k <;> exact ⟨_, _, rfl, rfl, .name rfl⟩

variable {v : Vocabulary}

lemma LaidOut.blanks {bs cs : List Char} {xs : List Lexeme}
    (hb : ∀ c ∈ bs, Text.isBlank c = true ∧ (c.toNat < 0x80 ∨ c ∈ v.blanks))
    (h : LaidOut v cs xs) : LaidOut v (bs ++ cs) xs := by
  induction bs with
  | nil => exact h
  | cons b bs ih =>
    obtain ⟨hblank, hmem⟩ := hb b List.mem_cons_self
    exact .blank hblank hmem (ih fun c hc => hb c (List.mem_cons_of_mem _ hc))

lemma LaidOut.signedPoint_notMem {cs : List Char} {xs : List Lexeme} (h : LaidOut v cs xs) :
    signedPoint ∉ xs := by
  induction h with
  | nil => exact List.not_mem_nil
  | blank _ _ _ ih => exact ih
  | symbol _ _ _ ih | arrow _ ih | line _ ih => simpa [signedPoint] using ih
  | keyword k _ _ ih => simpa [signedPoint] using ih
  | @word kind x _ _ _ hx _ _ ih =>
    have hne := (v.canonical x hx).ne_signedPoint
    simpa [signedPoint, hne.symm] using ih

theorem LaidOut.reads {cs : List Char} {xs : List Lexeme} (h : LaidOut v cs xs)
    {rest : List Char} {ys : List Lexeme} (hr : Reads rest ys) :
    Reads (cs ++ rest) (xs ++ ys) := by
  induction h with
  | nil => exact hr
  | blank hb _ _ ih => exact ih.blank hb
  | symbol hs _ _ ih => exact ih.symbol hs
  | arrow _ ih => exact ih.arrow
  | line _ ih => exact ih.line
  | keyword k hc _ ih =>
    rw [List.append_assoc]
    exact ih.word (isWord_keyword k) (hc.append rest).2
  | word hw _ hc _ ih =>
    rw [List.append_assoc]
    exact ih.word hw (hc.append rest).2

end DotGraph
