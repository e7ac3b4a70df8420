import DotGraph.Ident
import DotGraph.SyntaxError

/-!
# Scanning

From characters to tokens. Between tokens, blanks, comments and lines that start with `#` are
skipped. Every lexeme is a slice of the source: `lexeme_append` says that its spelling and the
unread characters make up the characters it was read from.
-/

namespace DotGraph.Scan

/-- What is being skipped. A block comment remembers where it began. -/
inductive Gap
  | blank
  | lineComment
  | blockComment (start : Position)

/-- Skip to the next character that belongs to a token. -/
def skip : Gap → Position → List Char → Except SyntaxError (Position × List Char)
  | .blockComment start, _, [] => .error ⟨start, .unterminatedComment⟩
  | _, p, [] => .ok (p, [])
  | .blockComment start, p, c :: cs =>
    match c, cs with
    | '*', '/' :: cs => skip .blank ((p.step '*').step '/') cs
    | c, cs => skip (.blockComment start) (p.step c) cs
  | .lineComment, p, c :: cs =>
    if c = '\n' then skip .blank (p.step c) cs else skip .lineComment (p.step c) cs
  | .blank, p, c :: cs =>
    if Text.isBlank c then skip .blank (p.step c) cs
    else if c = '#' && p.lineStart then skip .lineComment (p.step c) cs
    else match c, cs with
      | '/', '/' :: cs => skip .lineComment ((p.step '/').step '/') cs
      | '/', '*' :: cs => skip (.blockComment p) ((p.step '/').step '*') cs
      | c, cs => .ok (p, c :: cs)

/-- Cut behind the quote that closes a literal. A backslash keeps the next character in. -/
def quotedTail : List Char → Option (List Char × List Char)
  | [] => none
  | '"' :: cs => some (['"'], cs)
  | '\\' :: c :: cs => (quotedTail cs).map fun r => ('\\' :: c :: r.1, r.2)
  | c :: cs => (quotedTail cs).map fun r => (c :: r.1, r.2)

/-- Cut behind the angle bracket that closes a literal with `depth` inner ones open. -/
def htmlTail : Nat → List Char → Option (List Char × List Char)
  | _, [] => none
  | depth, c :: cs =>
    if c = '<' then (htmlTail (depth + 1) cs).map fun r => (c :: r.1, r.2)
    else if c = '>' then match depth with
      | 0 => some ([c], cs)
      | depth + 1 => (htmlTail depth cs).map fun r => (c :: r.1, r.2)
    else (htmlTail depth cs).map fun r => (c :: r.1, r.2)

/-- Cut behind the digits at the front and a fraction that follows them. -/
def unsignedNumeral (cs : List Char) : List Char × List Char :=
  match cs.dropWhile Char.isDigit with
  | '.' :: rest =>
    (cs.takeWhile Char.isDigit ++ '.' :: rest.takeWhile Char.isDigit, rest.dropWhile Char.isDigit)
  | rest => (cs.takeWhile Char.isDigit, rest)

def symbol? : Char → Option Symbol
  | '{' => some .openBrace
  | '}' => some .closeBrace
  | '[' => some .openBracket
  | ']' => some .closeBracket
  | ';' => some .semicolon
  | ',' => some .comma
  | '=' => some .equals
  | ':' => some .colon
  | '+' => some .plus
  | _ => none

def word (kind : WordKind) (cut : List Char × List Char) : Lexeme × List Char :=
  (.word kind (String.ofList cut.1), cut.2)

/-- The lexeme at a minus sign, read from what follows the sign. -/
def afterMinus : List Char → Except SyntaxFault (Lexeme × List Char)
  | '>' :: cs => .ok (.symbol .arrow, cs)
  | '-' :: cs => .ok (.symbol .line, cs)
  | c :: cs =>
    if c.isDigit || c = '.' then
      let cut := unsignedNumeral (c :: cs)
      .ok (word .numeral ('-' :: cut.1, cut.2))
    else .error (.unexpectedChar '-')
  | [] => .error (.unexpectedChar '-')

/-- The longest lexeme at the front of `c :: cs`, where `c` is no character to skip. -/
def lexeme (c : Char) (cs : List Char) : Except SyntaxFault (Lexeme × List Char) :=
  match symbol? c with
  | some s => .ok (.symbol s, cs)
  | none =>
    if c = '"' then match quotedTail cs with
      | some cut => .ok (word .quoted (c :: cut.1, cut.2))
      | none => .error .unterminatedQuoted
    else if c = '<' then match htmlTail 0 cs with
      | some cut => .ok (word .html (c :: cut.1, cut.2))
      | none => .error .unterminatedHtml
    else if c = '-' then afterMinus cs
    else if c.isDigit || (c = '.' && cs.head?.any Char.isDigit) then
      .ok (word .numeral (unsignedNumeral (c :: cs)))
    else if Ident.isNameStart c then
      .ok (word .name (c :: cs.takeWhile Ident.isNameChar, cs.dropWhile Ident.isNameChar))
    else .error (.unexpectedChar c)

/-- Skipping drops characters from the front and steps over each. -/
theorem skip_eq_ok {gap : Gap} {p q : Position} {cs rest : List Char}
    (h : skip gap p cs = .ok (q, rest)) : ∃ gone, gone ++ rest = cs ∧ p.advance gone = q := by
  fun_induction skip gap p cs with
  | case1 => simp at h
  | case2 => cases h; exact ⟨[], rfl, rfl⟩
  | case3 _ _ cs ih => obtain ⟨gone, rfl, hq⟩ := ih h; exact ⟨'*' :: '/' :: gone, by simp [hq]⟩
  | case4 _ _ c cs _ ih => obtain ⟨gone, rfl, hq⟩ := ih h; exact ⟨c :: gone, by simp [hq]⟩
  | case5 _ cs ih => obtain ⟨gone, rfl, hq⟩ := ih h; exact ⟨'\n' :: gone, by simp [hq]⟩
  | case6 _ c cs _ ih => obtain ⟨gone, rfl, hq⟩ := ih h; exact ⟨c :: gone, by simp [hq]⟩
  | case7 _ c cs _ ih => obtain ⟨gone, rfl, hq⟩ := ih h; exact ⟨c :: gone, by simp [hq]⟩
  | case8 _ c cs _ _ ih => obtain ⟨gone, rfl, hq⟩ := ih h; exact ⟨c :: gone, by simp [hq]⟩
  | case9 _ cs _ _ ih => obtain ⟨gone, rfl, hq⟩ := ih h; exact ⟨'/' :: '/' :: gone, by simp [hq]⟩
  | case10 _ cs _ _ ih => obtain ⟨gone, rfl, hq⟩ := ih h; exact ⟨'/' :: '*' :: gone, by simp [hq]⟩
  | case11 => cases h; exact ⟨[], rfl, rfl⟩

theorem quotedTail_append {cs : List Char} {cut : List Char × List Char}
    (h : quotedTail cs = some cut) : cut.1 ++ cut.2 = cs := by
  fun_induction quotedTail cs generalizing cut with
  | case1 => simp at h
  | case2 => simp only [Option.some.injEq] at h; subst h; rfl
  | case3 c cs ih =>
    obtain ⟨r, hr, rfl⟩ := Option.map_eq_some_iff.1 h
    simp [ih hr]
  | case4 c cs _ _ ih =>
    obtain ⟨r, hr, rfl⟩ := Option.map_eq_some_iff.1 h
    simp [ih hr]

theorem htmlTail_append {depth : Nat} {cs : List Char} {cut : List Char × List Char}
    (h : htmlTail depth cs = some cut) : cut.1 ++ cut.2 = cs := by
  fun_induction htmlTail depth cs generalizing cut with
  | case1 => simp at h
  | case2 depth cs ih =>
    obtain ⟨r, hr, rfl⟩ := Option.map_eq_some_iff.1 h
    simp [ih hr]
  | case3 => simp only [Option.some.injEq] at h; subst h; rfl
  | case4 cs _ depth ih =>
    obtain ⟨r, hr, rfl⟩ := Option.map_eq_some_iff.1 h
    simp [ih hr]
  | case5 depth c cs _ _ ih =>
    obtain ⟨r, hr, rfl⟩ := Option.map_eq_some_iff.1 h
    simp [ih hr]

theorem unsignedNumeral_append (cs : List Char) :
    (unsignedNumeral cs).1 ++ (unsignedNumeral cs).2 = cs := by
  unfold unsignedNumeral
  split
  · rename_i rest h
    rw [List.append_assoc, List.cons_append, List.takeWhile_append_dropWhile, ← h,
      List.takeWhile_append_dropWhile]
  · exact List.takeWhile_append_dropWhile

theorem symbol?_spelling {c : Char} {s : Symbol} (h : symbol? c = some s) :
    s.spelling.toList = [c] := by
  unfold symbol? at h
  split at h <;> simp only [Option.some.injEq, reduceCtorEq] at h <;> subst h <;> rfl

/-- A lexeme is a slice of the source. -/
theorem lexeme_append {c : Char} {cs rest : List Char} {x : Lexeme}
    (h : lexeme c cs = .ok (x, rest)) : x.spelling.toList ++ rest = c :: cs := by
  unfold lexeme at h
  split at h
  · rename_i s hs
    cases h
    simp [Lexeme.spelling, symbol?_spelling hs]
  split at h
  · split at h
    · rename_i cut hcut
      cases h
      simp [Lexeme.spelling, quotedTail_append hcut]
    · simp at h
  split at h
  · split at h
    · rename_i cut hcut
      cases h
      simp [Lexeme.spelling, htmlTail_append hcut]
    · simp at h
  split at h
  · rename_i hc
    subst hc
    unfold afterMinus at h
    split at h
    · cases h; rfl
    · cases h; rfl
    · split at h
      · cases h
        simp [Lexeme.spelling, unsignedNumeral_append]
      · simp at h
    · simp at h
  split at h
  · simp only [word, Except.ok.injEq, Prod.mk.injEq] at h
    obtain ⟨rfl, rfl⟩ := h
    simp [Lexeme.spelling, unsignedNumeral_append]
  split at h
  · cases h
    simp [Lexeme.spelling]
  · simp at h

theorem unsignedNumeral_ne_nil {c : Char} {cs : List Char} (h : c.isDigit = true ∨ c = '.') :
    (unsignedNumeral (c :: cs)).1 ≠ [] := by
  unfold unsignedNumeral
  rcases h with h | rfl
  · split <;> simp [h]
  · have hd : ('.' :: cs).dropWhile Char.isDigit = '.' :: cs := rfl
    simp [hd]

theorem lexeme_spelling_ne_nil {c : Char} {cs rest : List Char} {x : Lexeme}
    (h : lexeme c cs = .ok (x, rest)) : x.spelling.toList ≠ [] := by
  unfold lexeme at h
  split at h
  · rename_i s hs
    cases h
    simp [Lexeme.spelling, symbol?_spelling hs]
  split at h
  · split at h
    · cases h; simp [Lexeme.spelling]
    · simp at h
  split at h
  · split at h
    · cases h; simp [Lexeme.spelling]
    · simp at h
  split at h
  · unfold afterMinus at h
    split at h
    · cases h; simp [Lexeme.spelling, Symbol.spelling]
    · cases h; simp [Lexeme.spelling, Symbol.spelling]
    · split at h
      · cases h; simp [Lexeme.spelling]
      · simp at h
    · simp at h
  split at h
  · rename_i hc
    simp only [word, Except.ok.injEq, Prod.mk.injEq] at h
    obtain ⟨rfl, rfl⟩ := h
    have : c.isDigit = true ∨ c = '.' := by
      simp only [Bool.or_eq_true, Bool.and_eq_true, decide_eq_true_eq] at hc
      exact hc.imp id And.left
    simpa [Lexeme.spelling] using unsignedNumeral_ne_nil this
  split at h
  · cases h; simp [Lexeme.spelling]
  · simp at h

theorem lexeme_length {c : Char} {cs rest : List Char} {x : Lexeme}
    (h : lexeme c cs = .ok (x, rest)) : rest.length ≤ cs.length := by
  have happ := congrArg List.length (lexeme_append h)
  have hpos := List.length_pos_iff.2 (lexeme_spelling_ne_nil h)
  simp only [List.length_append, List.length_cons] at happ
  omega

/-- The tokens from a position on. -/
def tokensFrom (p : Position) (cs : List Char) : Except SyntaxError Tokens :=
  match _skipped : skip .blank p cs with
  | .error e => .error e
  | .ok (q, []) => .ok ⟨[], q⟩
  | .ok (q, c :: unread) =>
    match _read : lexeme c unread with
    | .error fault => .error ⟨q, fault⟩
    | .ok (x, rest) =>
      match tokensFrom (q.advance x.spelling.toList) rest with
      | .error e => .error e
      | .ok tokens => .ok ⟨⟨x, q⟩ :: tokens.list, tokens.stop⟩
termination_by cs.length
decreasing_by
  obtain ⟨gone, rfl, _⟩ := skip_eq_ok _skipped
  have := lexeme_length _read
  simp only [List.length_append, List.length_cons]
  omega

end DotGraph.Scan

namespace DotGraph

/-- The tokens of a source text. -/
def Tokens.ofString (source : String) : Except SyntaxError Tokens :=
  Scan.tokensFrom {} source.toList

end DotGraph
