import DotGraph.Proofs.CanonicalIdent

/-!
# Spelled tokens

What becomes of the tokens of a source where they are written again. A word that stands for an
identifier is written as it stands, unless it is the numeral of a sign and a point, which has no
digit and is quoted. The spellings of all tokens, with a blank between each and the next, read as
the same tokens: no word takes in the blank behind it, and no two symbols meet.
-/

namespace DotGraph

open Scan

/-! ### Identifiers -/

namespace Ident

lemma toDot_of_isWord {kind : WordKind} {text : String} (hw : IsWord kind text)
    (hk : (Lexeme.word kind text).keyword? = none) (hs : Lexeme.word kind text ≠ signedPoint) :
    toDot ⟨text⟩ = text := by
  cases kind with
  | name => exact (isCanonical_name hw hk).toDot_eq
  | numeral =>
    have hpoint : text ≠ "-." := fun h => hs (congrArg (Lexeme.word .numeral) h)
    exact (isCanonical_numeral hw hpoint).toDot_eq
  | quoted => exact (isCanonical_quoted hw).toDot_eq
  | html => exact (isCanonical_html hw).toDot_eq

/-- A word of a source that is no keyword is written as it was read exactly when it is not the
numeral of a sign and a point. -/
theorem toDot_eq_iff_of_ofString {source : String} {tokens : Tokens}
    (h : Tokens.ofString source = .ok tokens) {token : Token} (ht : token ∈ tokens.list)
    {kind : WordKind} {text : String} (hx : token.lexeme = .word kind text)
    (hk : token.lexeme.keyword? = none) :
    toDot ⟨text⟩ = text ↔ token.lexeme ≠ signedPoint := by
  rw [hx] at hk ⊢
  constructor
  · rintro hdot hpoint
    obtain ⟨rfl, rfl⟩ := Lexeme.word.inj hpoint
    exact absurd hdot (by decide)
  · intro hpoint
    exact toDot_of_isWord (isWord_of_tokensFrom h ht hx) hk hpoint

/-- A point behind a sign is a numeral of its own, or it has a digit. -/
theorem toDot_eq_iff_of_ofString_points :
    ∃ tokens, Tokens.ofString "-.-.5" = .ok tokens ∧
      tokens.list.map Token.lexeme = [.word .numeral "-.", .word .numeral "-.5"] ∧
      (toDot ⟨"-."⟩ = "-." ↔ Lexeme.word .numeral "-." ≠ signedPoint) ∧
      (toDot ⟨"-.5"⟩ = "-.5" ↔ Lexeme.word .numeral "-.5" ≠ signedPoint) := by
  have htokens : Tokens.ofString "-.-.5" =
      .ok ⟨[⟨.word .numeral "-.", ⟨0, 1, 1, true⟩⟩, ⟨.word .numeral "-.5", ⟨2, 1, 3, false⟩⟩],
        ⟨5, 1, 6, false⟩⟩ := by
    decide +kernel
  exact ⟨_, htokens, rfl,
    toDot_eq_iff_of_ofString htokens List.mem_cons_self rfl rfl,
    toDot_eq_iff_of_ofString htokens (List.mem_cons_of_mem _ List.mem_cons_self) rfl rfl⟩

/-- The numeral of a sign and a point is read, and it is not written as it was read. -/
theorem toDot_signedPoint :
    ∃ tokens, Tokens.ofString "-." = .ok tokens ∧ ∃ token ∈ tokens.list,
      token.lexeme = .word .numeral "-." ∧ token.lexeme.keyword? = none ∧
        toDot ⟨"-."⟩ ≠ "-." := by
  have htokens : Tokens.ofString "-." =
      .ok ⟨[⟨.word .numeral "-.", ⟨0, 1, 1, true⟩⟩], ⟨2, 1, 3, false⟩⟩ := by
    decide +kernel
  exact ⟨_, htokens, _, List.mem_cons_self, rfl, rfl, by decide⟩

end Ident

/-! ### All tokens -/

/-- The spellings one behind the other, with a blank between each and the next. -/
def spelled (xs : List Lexeme) : String := String.intercalate " " (xs.map Lexeme.spelling)

namespace Scan

lemma ends_blank (cs : List Char) : Ends (' ' :: cs) := ends_cons rfl (by decide) cs

/-- A symbol is read in front of anything. -/
lemma Reads.spelling (s : Symbol) {cs : List Char} {xs : List Lexeme} (h : Reads cs xs) :
    Reads (s.spelling.toList ++ cs) (.symbol s :: xs) := by
  cases s with
  | arrow => exact h.arrow
  | line => exact h.line
  | _ => exact h.symbol rfl

lemma Reads.lexeme_spelling {x : Lexeme} (hx : ∀ kind text, x = .word kind text → IsWord kind text)
    {cs : List Char} {xs : List Lexeme} (hc : Ends cs) (h : Reads cs xs) :
    Reads (x.spelling.toList ++ cs) (x :: xs) := by
  cases x with
  | word kind text => exact h.word (hx kind text rfl) hc
  | symbol s => exact h.spelling s

/-- Words and symbols are read from their spellings, wherever they came from. -/
theorem reads_spelled {xs : List Lexeme}
    (hx : ∀ kind text, .word kind text ∈ xs → IsWord kind text) : Reads (spelled xs).toList xs := by
  induction xs with
  | nil => exact reads_nil
  | cons x xs ih =>
    have hword (kind : WordKind) (text : String) (heq : x = .word kind text) : IsWord kind text :=
      hx kind text (heq ▸ List.mem_cons_self)
    have hrest := ih fun kind text hmem => hx kind text (List.mem_cons_of_mem x hmem)
    cases xs with
    | nil =>
      have hlast := Reads.lexeme_spelling hword ends_nil reads_nil
      rwa [List.append_nil] at hlast
    | cons y xs =>
      have hfirst := Reads.lexeme_spelling hword (ends_blank _) (hrest.blank rfl)
      have hcut : (spelled (x :: y :: xs)).toList =
          x.spelling.toList ++ ' ' :: (spelled (y :: xs)).toList := by
        rw [spelled, List.map_cons, List.map_cons, String.intercalate_cons_cons]
        simp [spelled]
      rwa [hcut]

end Scan

/-- The spellings of the tokens of a source, with a blank between each and the next, have the same
tokens again. -/
theorem ofString_spelled {source : String} {tokens : Tokens}
    (h : Tokens.ofString source = .ok tokens) :
    ∃ again, Tokens.ofString (spelled (tokens.list.map Token.lexeme)) = .ok again ∧
      again.list.map Token.lexeme = tokens.list.map Token.lexeme := by
  have hwords (kind : WordKind) (text : String)
      (hmem : .word kind text ∈ tokens.list.map Token.lexeme) : IsWord kind text := by
    obtain ⟨token, htoken, hlexeme⟩ := List.mem_map.1 hmem
    exact isWord_of_tokensFrom h htoken hlexeme
  exact reads_spelled hwords {}

/-- A name that ends in a blank beyond ASCII, numerals that end in a point, a hash and slashes
inside literals, and operators that touch. -/
theorem ofString_spelled_touching :
    ∃ tokens, Tokens.ofString "a\u00a0 3.-.\"#\n\"<//>->--b" = .ok tokens ∧
      spelled (tokens.list.map Token.lexeme) = "a\u00a0 3. -. \"#\n\" <//> -> -- b" ∧
      ∃ again, Tokens.ofString (spelled (tokens.list.map Token.lexeme)) = .ok again ∧
        again.list.map Token.lexeme = tokens.list.map Token.lexeme := by
  have htokens : Tokens.ofString "a\u00a0 3.-.\"#\n\"<//>->--b" =
      .ok ⟨[⟨.word .name "a\u00a0", ⟨0, 1, 1, true⟩⟩, ⟨.word .numeral "3.", ⟨4, 1, 4, false⟩⟩,
        ⟨.word .numeral "-.", ⟨6, 1, 6, false⟩⟩, ⟨.word .quoted "\"#\n\"", ⟨8, 1, 8, false⟩⟩,
        ⟨.word .html "<//>", ⟨12, 2, 2, false⟩⟩, ⟨.symbol .arrow, ⟨16, 2, 6, false⟩⟩,
        ⟨.symbol .line, ⟨18, 2, 8, false⟩⟩, ⟨.word .name "b", ⟨20, 2, 10, false⟩⟩],
        ⟨21, 2, 11, false⟩⟩ := by
    decide +kernel
  exact ⟨_, htokens, by decide +kernel, ofString_spelled htokens⟩

end DotGraph
