import DotGraph.Proofs.Coverage
import DotGraph.Proofs.Attempt

/-!
# Scanning by offset

A scanner that keeps a byte offset into the source and cuts its words out of it, where nothing is
total by construction. From every place in front of a character or at the end it ends without a
trap, goes forward, and finds what `Scan` finds in the characters that are left.
-/

namespace DotGraph

open Attempt

/-- A token as the scanner hands it on. The one without a lexeme marks the end of the source. -/
structure Mark where
  lexeme? : Option Lexeme
  position : Position
deriving DecidableEq

/-- The marks of the tokens, and behind them the one of the end. -/
def Tokens.marks (tokens : Tokens) : List Mark :=
  tokens.list.map (fun token => ⟨some token.lexeme, token.position⟩) ++ [⟨none, tokens.stop⟩]

/-! ### What is cut out of a source -/

/-- The position stands in front of the given rest of the source. -/
def Position.Faces (source : String) (p : Position) (rest : List Char) : Prop :=
  ∃ before, source.toList = before ++ rest ∧ p.offset = octetCount before

section Faces

variable {source : String} {p : Position} {c : Char} {cs ds : List Char}

lemma Position.offset_advance (p : Position) (cs : List Char) :
    (p.advance cs).offset = p.offset + octetCount cs := by
  induction cs generalizing p with
  | nil => rfl
  | cons c cs ih =>
    have hstep : (p.step c).offset = p.offset + c.utf8Size := by
      rw [Position.step]
      split <;> rfl
    have hsplit := octetCount_append [c] cs
    rw [octetCount_singleton, List.singleton_append] at hsplit
    rw [Position.advance_cons, ih, hstep, hsplit, Nat.add_assoc]

lemma Position.faces_start (source : String) : Position.Faces source {} source.toList :=
  ⟨[], rfl, rfl⟩

lemma Position.Faces.advance (h : p.Faces source (cs ++ ds)) : (p.advance cs).Faces source ds := by
  obtain ⟨before, hsource, hp⟩ := h
  refine ⟨before ++ cs, by simpa using hsource, ?_⟩
  rw [Position.offset_advance, hp, octetCount_append]

lemma Position.Faces.step (h : p.Faces source (c :: cs)) : (p.step c).Faces source cs := by
  have hfirst : p.Faces source ([c] ++ cs) := h
  exact hfirst.advance

/-- A position faces some rest exactly when no character is cut there. -/
lemma Position.exists_faces_iff :
    (∃ rest, p.Faces source rest) ↔ (⟨p.offset⟩ : String.Pos.Raw).IsValid source := by
  rw [String.Pos.Raw.isValid_iff_exists_append]
  constructor
  · rintro ⟨rest, before, hsource, hp⟩
    refine ⟨String.ofList before, String.ofList rest, ?_, congrArg String.Pos.Raw.mk hp⟩
    rw [← String.ofList_append, ← hsource, String.ofList_toList]
  · rintro ⟨before, rest, rfl, hp⟩
    refine ⟨rest.toList, before.toList, String.toList_append, ?_⟩
    rw [octetCount, String.ofList_toList]
    exact congrArg String.Pos.Raw.byteIdx hp

lemma slice_advance (h : p.Faces source (cs ++ ds)) :
    slice source p.offset (p.advance cs).offset = pure (String.ofList cs) := by
  obtain ⟨before, hsource, hp⟩ := h
  have hstop : (p.advance cs).offset = octetCount (before ++ cs) := by
    rw [Position.offset_advance, hp, octetCount_append]
  have heq : source =
      String.ofList before ++ String.ofList cs ++ String.ofList ds := by
    rw [← String.ofList_append, ← String.ofList_append, List.append_assoc, ← hsource,
      String.ofList_toList]
  rw [hp, hstop, heq, octetCount, octetCount, String.ofList_append]
  exact slice_append _ _ _

lemma Position.Faces.offset_end (h : p.Faces source []) : p.offset = source.utf8ByteSize := by
  obtain ⟨before, hsource, hp⟩ := h
  rw [hp, octetCount, ← List.append_nil before, ← hsource, String.ofList_toList]

lemma slice_rest (h : p.Faces source cs) :
    slice source p.offset source.utf8ByteSize = pure (String.ofList cs) := by
  have hall : p.Faces source (cs ++ []) := by rwa [List.append_nil]
  rw [← hall.advance.offset_end]
  exact slice_advance hall

end Faces

namespace OffsetScan

/-! ### The scanner -/

section Scanner

variable (source : String) (start : Position) (test : Char → Bool)

/-- The next character, and none at the end. -/
def peek (p : Position) : Attempt (Option Char) := do
  let rest ← slice source p.offset source.utf8ByteSize
  return rest.toList.head?

/-- The character behind the next one. -/
def peekSecond (p : Position) : Attempt (Option Char) := do
  let rest ← slice source p.offset source.utf8ByteSize
  return rest.toList.tail.head?

/-- Step over the next character. At the end, stay. -/
def bump (p : Position) : Attempt (Option Char × Position) := do
  match ← peek source p with
  | some c => return (some c, p.step c)
  | none => return (none, p)

def skipLine : Machine Position Position := fun p => do
  match ← peek source p with
  | none => return p
  | some c =>
    if c = '\n' then return p
    else
      let (_, p) ← bump source p
      skipLine.run p
partial_fixpoint

/-- Skip to behind the mark that closes a block comment. -/
def skipBlock : Machine Position Position := fun p => do
  match ← bump source p with
  | (none, _) => refuse ⟨start, .unterminatedComment⟩
  | (some c, p) =>
    if c = '*' then
      if (← peek source p) = some '/' then
        let (_, p) ← bump source p
        return p
      else skipBlock.run p
    else skipBlock.run p
partial_fixpoint

/-- Skip blanks, comments and the lines that start with a hash. -/
def skipGaps : Machine Position Position := fun p => do
  match ← peek source p with
  | none => return p
  | some c =>
    if Text.isBlank c then
      let (_, p) ← bump source p
      skipGaps.run p
    else if c = '#' && p.lineStart then
      let p ← skipLine source p
      skipGaps.run p
    else if c = '/' then
      match ← peekSecond source p with
      | some '/' =>
        let p ← skipLine source p
        skipGaps.run p
      | some '*' =>
        let (_, inside) ← bump source p
        let (_, inside) ← bump source inside
        let p ← skipBlock source p inside
        skipGaps.run p
      | _ => return p
    else return p
partial_fixpoint

def passWhile : Machine Position Position := fun p => do
  if (← peek source p).any test then
    let (_, p) ← bump source p
    passWhile.run p
  else return p
partial_fixpoint

/-- The longest text of characters that pass the test. -/
def takeWhile (p : Position) : Attempt (String × Position) := do
  let q ← passWhile source test p
  return (← slice source p.offset q.offset, q)

/-- Go behind the quote that closes a literal. -/
def quotedEnd : Machine Position Position := fun p => do
  match ← bump source p with
  | (none, _) => refuse ⟨start, .unterminatedQuoted⟩
  | (some c, p) =>
    if c = '"' then return p
    else if c = '\\' then
      let (_, p) ← bump source p
      quotedEnd.run p
    else quotedEnd.run p
partial_fixpoint

/-- Go behind the bracket that brings the number of open ones back to zero. -/
def htmlEnd : Machine (Nat × Position) Position := fun (depth, p) => do
  match ← bump source p with
  | (none, _) => refuse ⟨start, .unterminatedHtml⟩
  | (some c, p) =>
    if c = '<' then htmlEnd.run (depth + 1, p)
    else if c = '>' then
      let depth ← lower depth
      if depth = 0 then return p else htmlEnd.run (depth, p)
    else htmlEnd.run (depth, p)
partial_fixpoint

/-- Go behind digits and the fraction that may follow them. -/
def unsignedEnd (p : Position) : Attempt Position := do
  let (_, p) ← takeWhile source Char.isDigit p
  if (← peek source p) = some '.' then
    let (_, p) ← bump source p
    let (_, p) ← takeWhile source Char.isDigit p
    return p
  else return p

/-- The word between two places. -/
def word (kind : WordKind) (p q : Position) : Attempt (Lexeme × Position) := do
  return (.word kind (← slice source p.offset q.offset), q)

def numeral (p : Position) : Attempt (Lexeme × Position) := do
  if (← peek source p) = some '-' then
    let (_, q) ← bump source p
    word source .numeral p (← unsignedEnd source q)
  else word source .numeral p (← unsignedEnd source p)

def name (p : Position) : Attempt (Lexeme × Position) := do
  let (text, q) ← takeWhile source Ident.isNameChar p
  return (.word .name text, q)

def quoted (p : Position) : Attempt (Lexeme × Position) := do
  let (_, q) ← bump source p
  word source .quoted p (← quotedEnd source p q)

def html (p : Position) : Attempt (Lexeme × Position) := do
  word source .html p (← htmlEnd source p (0, p))

def arrowOrLine (s : Symbol) (p : Position) : Attempt (Lexeme × Position) := do
  let (_, p) ← bump source p
  let (_, p) ← bump source p
  return (.symbol s, p)

def afterMinus (p : Position) : Attempt (Lexeme × Position) := do
  match ← peekSecond source p with
  | some '>' => arrowOrLine source .arrow p
  | some '-' => arrowOrLine source .line p
  | some d =>
    if d.isDigit || d = '.' then numeral source p else refuse ⟨p, .unexpectedChar '-'⟩
  | none => refuse ⟨p, .unexpectedChar '-'⟩

/-- The lexeme that starts with the next character `c`. -/
def lexeme (c : Char) (p : Position) : Attempt (Lexeme × Position) := do
  match Scan.symbol? c with
  | some s =>
    let (_, q) ← bump source p
    return (.symbol s, q)
  | none =>
    if c = '"' then quoted source p
    else if c = '<' then html source p
    else if c = '-' then afterMinus source p
    else if c = '.' then
      if (← peekSecond source p).any Char.isDigit then numeral source p
      else refuse ⟨p, .unexpectedChar c⟩
    else if c.isDigit then numeral source p
    else if Ident.isNameStart c then name source p
    else refuse ⟨p, .unexpectedChar c⟩

def nextToken (p : Position) : Attempt (Mark × Position) := do
  let p ← skipGaps source p
  match ← peek source p with
  | none => return (⟨none, p⟩, p)
  | some c =>
    let (x, q) ← lexeme source c p
    return (⟨some x, p⟩, q)

/-- The tokens up to the mark of the end, behind those that were read before. -/
def tokensFrom : Machine (Position × List Mark) (List Mark) := fun (p, read) => do
  let (mark, p) ← nextToken source p
  if mark.lexeme? = none then return read ++ [mark] else tokensFrom.run (p, read ++ [mark])
partial_fixpoint

def tokenize : Attempt (List Mark) := tokensFrom source ({}, [])

end Scanner

/-! ### What the scanner finds -/

variable {source : String} {p : Position} {c : Char} {cs : List Char}

lemma peek_eq (h : p.Faces source cs) : peek source p = pure cs.head? := by
  simp [peek, slice_rest h]

lemma peekSecond_eq (h : p.Faces source cs) : peekSecond source p = pure cs.tail.head? := by
  simp [peekSecond, slice_rest h]

lemma bump_nil (h : p.Faces source []) : bump source p = pure (none, p) := by
  simp [bump, peek_eq h]

lemma bump_cons (h : p.Faces source (c :: cs)) : bump source p = pure (some c, p.step c) := by
  simp [bump, peek_eq h]

/-- What is left to do inside of a gap. -/
def resume (source : String) : Scan.Gap → Position → Attempt Position
  | .blank, p => skipGaps source p
  | .lineComment, p => skipLine source p >>= skipGaps source
  | .blockComment start, p => skipBlock source start p >>= skipGaps source

lemma skipLine_step (h : p.Faces source (c :: cs)) (hc : c ≠ '\n') :
    skipLine source p = skipLine source (p.step c) := by
  rw [skipLine, peek_eq h]
  simp only [pure_bind, List.head?_cons, if_neg hc, bump_cons h, ReaderT.run]

/-- The scanner goes over a gap as `Scan.skip` does, from wherever it stands in it. -/
theorem resume_eq (gap : Scan.Gap) (h : p.Faces source cs) :
    resume source gap p = .ofExcept (Prod.fst <$> Scan.skip gap p cs) := by
  fun_induction Scan.skip gap p cs with
  | case1 start p =>
    rw [resume, skipBlock, bump_nil h]
    rfl
  | case2 gap p hgap =>
    have hend : skipGaps source p = pure p := by
      rw [skipGaps, peek_eq h]
      rfl
    cases gap with
    | blank => exact hend
    | lineComment =>
      rw [resume, skipLine, peek_eq h]
      exact hend
    | blockComment start => exact absurd rfl (hgap start)
  | case3 start p cs ih =>
    rw [resume, skipBlock, bump_cons h]
    simp only [pure_bind, if_true, peek_eq h.step, List.head?_cons, bump_cons h.step]
    exact ih h.step.step
  | case4 start p c cs hc ih =>
    have hgo : skipBlock source start p = skipBlock source start (p.step c) := by
      rw [skipBlock, bump_cons h]
      simp only [pure_bind, peek_eq h.step]
      split_ifs with hstar hslash
      · obtain ⟨cs, rfl⟩ := List.head?_eq_some_iff.1 hslash
        exact absurd rfl (hc cs hstar)
      · rfl
      · rfl
    rw [resume, hgo]
    exact ih h.step
  | case5 p cs ih =>
    have hblank : Text.isBlank '\n' = true := rfl
    rw [resume, skipLine, peek_eq h]
    simp only [pure_bind, List.head?_cons, if_true]
    rw [skipGaps, peek_eq h]
    simp only [pure_bind, List.head?_cons, if_pos hblank, bump_cons h]
    exact ih h.step
  | case6 p c cs hc ih =>
    rw [resume, skipLine_step h hc]
    exact ih h.step
  | case7 p c cs hb ih =>
    rw [resume, skipGaps, peek_eq h]
    simp only [pure_bind, List.head?_cons, if_pos hb, bump_cons h]
    exact ih h.step
  | case8 p c cs hb hc ih =>
    have hne : c ≠ '\n' := by
      rintro rfl
      exact hb rfl
    rw [resume, skipGaps, peek_eq h]
    simp only [pure_bind, List.head?_cons, if_neg hb, if_pos hc, skipLine_step h hne]
    exact ih h.step
  | case9 p cs hb hc ih =>
    rw [resume, skipGaps, peek_eq h]
    simp only [pure_bind, List.head?_cons, if_neg hb, if_neg hc, if_true, peekSecond_eq h,
      List.tail_cons, skipLine_step h (by decide), skipLine_step h.step (by decide)]
    exact ih h.step.step
  | case10 p cs hb hc ih =>
    rw [resume, skipGaps, peek_eq h]
    simp only [pure_bind, List.head?_cons, if_neg hb, if_neg hc, if_true, peekSecond_eq h,
      List.tail_cons, bump_cons h, bump_cons h.step]
    exact ih h.step.step
  | case11 p c cs hline hblock hb hc =>
    rw [resume, skipGaps, peek_eq h]
    simp only [pure_bind, List.head?_cons, if_neg hb, if_neg hc, peekSecond_eq h, List.tail_cons]
    split_ifs with hslash
    · split
      · rename_i hsecond
        obtain ⟨cs, rfl⟩ := List.head?_eq_some_iff.1 hsecond
        exact absurd rfl (hline cs hslash)
      · rename_i hsecond
        obtain ⟨cs, rfl⟩ := List.head?_eq_some_iff.1 hsecond
        exact absurd rfl (hblock cs hslash)
      · rfl
    · rfl

lemma passWhile_eq (test : Char → Bool) (h : p.Faces source cs) :
    passWhile source test p = pure (p.advance (cs.takeWhile test)) := by
  induction cs generalizing p with
  | nil =>
    rw [passWhile, peek_eq h]
    rfl
  | cons c cs ih =>
    rw [passWhile, peek_eq h]
    by_cases hc : test c = true
    · simp only [pure_bind, List.head?_cons, Option.any_some, if_pos hc, bump_cons h, ReaderT.run,
        ih h.step, List.takeWhile_cons_of_pos hc, Position.advance_cons]
    · simp only [pure_bind, List.head?_cons, Option.any_some, if_neg hc,
        List.takeWhile_cons_of_neg hc, Position.advance_nil]

lemma takeWhile_eq (test : Char → Bool) (h : p.Faces source cs) :
    takeWhile source test p =
      pure (String.ofList (cs.takeWhile test), p.advance (cs.takeWhile test)) := by
  rw [takeWhile, passWhile_eq test h]
  rw [← List.takeWhile_append_dropWhile (p := test) (l := cs)] at h
  rw [pure_bind, slice_advance h]
  rfl

lemma quotedEnd_eq (start : Position) (h : p.Faces source cs) :
    quotedEnd source start p = .ofExcept (match Scan.quotedTail cs with
      | some cut => .ok (p.advance cut.1)
      | none => .error ⟨start, .unterminatedQuoted⟩) := by
  fun_induction Scan.quotedTail cs generalizing p with
  | case1 =>
    rw [quotedEnd, bump_nil h]
    rfl
  | case2 cs =>
    rw [quotedEnd, bump_cons h]
    rfl
  | case3 c cs ih =>
    rw [quotedEnd, bump_cons h]
    simp only [pure_bind, if_true, bump_cons h.step]
    rw [if_neg (by decide), ReaderT.run, ih h.step.step]
    cases Scan.quotedTail cs <;> rfl
  | case4 c cs hq hb ih =>
    rw [quotedEnd, bump_cons h]
    simp only [pure_bind, if_neg hq]
    split_ifs with hslash
    · cases cs with
      | nil =>
        rw [bump_nil h.step, pure_bind, ReaderT.run, ih h.step]
        rfl
      | cons d ds => exact absurd rfl (hb d ds hslash)
    · rw [ReaderT.run, ih h.step]
      cases Scan.quotedTail cs <;> rfl

/-- Where a bracket is open, the counter that is lowered is not zero. -/
lemma htmlEnd_eq (start : Position) {depth : Nat} (h : p.Faces source cs) :
    htmlEnd source start (depth + 1, p) = .ofExcept (match Scan.htmlTail depth cs with
      | some cut => .ok (p.advance cut.1)
      | none => .error ⟨start, .unterminatedHtml⟩) := by
  fun_induction Scan.htmlTail depth cs generalizing p with
  | case1 =>
    rw [htmlEnd, bump_nil h]
    rfl
  | case2 depth cs ih =>
    rw [htmlEnd, bump_cons h, pure_bind]
    simp only [if_true, ReaderT.run, ih h.step]
    cases Scan.htmlTail (depth + 1) cs <;> rfl
  | case3 cs =>
    rw [htmlEnd, bump_cons h]
    rfl
  | case4 cs depth hne ih =>
    rw [htmlEnd, bump_cons h, pure_bind]
    simp only [if_neg hne, if_true, lower, pure_bind,
      if_neg (Nat.succ_ne_zero depth), ReaderT.run, ih h.step]
    cases Scan.htmlTail depth cs <;> rfl
  | case5 depth c cs ho hc ih =>
    rw [htmlEnd, bump_cons h, pure_bind]
    simp only [if_neg ho, if_neg hc, ReaderT.run, ih h.step]
    cases Scan.htmlTail depth cs <;> rfl

lemma unsignedEnd_eq (h : p.Faces source cs) :
    unsignedEnd source p = pure (p.advance (Scan.unsignedNumeral cs).1) := by
  have hdigits := takeWhile_eq Char.isDigit h
  rw [← List.takeWhile_append_dropWhile (p := Char.isDigit) (l := cs)] at h
  rw [unsignedEnd, hdigits, Scan.unsignedNumeral]
  simp only [pure_bind, peek_eq h.advance]
  cases hrest : cs.dropWhile Char.isDigit with
  | nil => rfl
  | cons d rest =>
    rw [hrest] at h
    by_cases hd : d = '.'
    · subst hd
      simp only [List.head?_cons, if_true, bump_cons h.advance, pure_bind,
        takeWhile_eq Char.isDigit h.advance.step, Position.advance_append, Position.advance_cons]
    · simp [hd]

/-- A word that makes up the front of the rest is what is cut out of the source. -/
lemma word_eq (kind : WordKind) {as bs : List Char} (h : p.Faces source cs) (hcut : as ++ bs = cs) :
    word source kind p (p.advance as) =
      pure (.word kind (String.ofList as), p.advance as) := by
  rw [← hcut] at h
  rw [word, slice_advance h]
  rfl

/-- What the scanner makes of a lexeme that is read at a place. -/
def placed (p : Position) :
    Except SyntaxFault (Lexeme × List Char) → Except SyntaxError (Lexeme × Position)
  | .ok (x, _) => .ok (x, p.advance x.spelling.toList)
  | .error fault => .error ⟨p, fault⟩

lemma placed_word (p : Position) (kind : WordKind) (cut : List Char × List Char) :
    placed p (.ok (Scan.word kind cut)) =
      .ok (.word kind (String.ofList cut.1), p.advance cut.1) := by
  simp [placed, Scan.word, Lexeme.spelling]

lemma unsigned_eq (h : p.Faces source (c :: cs)) (hc : c ≠ '-') : numeral source p =
    .ofExcept (placed p (.ok (Scan.word .numeral (Scan.unsignedNumeral (c :: cs))))) := by
  rw [numeral, peek_eq h, placed_word]
  simp only [pure_bind, List.head?_cons, Option.some.injEq, if_neg hc, unsignedEnd_eq h]
  exact word_eq .numeral h (Scan.unsignedNumeral_append (c :: cs))

lemma signed_eq (h : p.Faces source ('-' :: cs)) : numeral source p =
    .ofExcept (placed p (.ok (Scan.word .numeral
      ('-' :: (Scan.unsignedNumeral cs).1, (Scan.unsignedNumeral cs).2)))) := by
  have happend : '-' :: (Scan.unsignedNumeral cs).1 ++ (Scan.unsignedNumeral cs).2 = '-' :: cs :=
    congrArg ('-' :: ·) (Scan.unsignedNumeral_append cs)
  rw [numeral, peek_eq h, placed_word]
  simp only [pure_bind, List.head?_cons, if_true, bump_cons h, unsignedEnd_eq h.step]
  exact word_eq .numeral h happend

lemma arrowOrLine_eq {d : Char} (s : Symbol) (h : p.Faces source (c :: d :: cs)) :
    arrowOrLine source s p = pure (.symbol s, (p.step c).step d) := by
  rw [arrowOrLine, bump_cons h, pure_bind]
  simp only [bump_cons h.step, pure_bind]

lemma afterMinus_eq (h : p.Faces source ('-' :: cs)) :
    afterMinus source p = .ofExcept (placed p (Scan.afterMinus cs)) := by
  rw [afterMinus, peekSecond_eq h, pure_bind, List.tail_cons]
  cases cs with
  | nil => rfl
  | cons d cs =>
    by_cases harrow : d = '>'
    · subst harrow
      exact arrowOrLine_eq .arrow h
    by_cases hline : d = '-'
    · subst hline
      exact arrowOrLine_eq .line h
    rw [Scan.afterMinus.eq_def]
    simp only [List.head?_cons]
    split_ifs
    · exact signed_eq h
    · rfl

lemma quoted_eq (h : p.Faces source ('"' :: cs)) : quoted source p =
    .ofExcept (placed p (match Scan.quotedTail cs with
      | some cut => .ok (Scan.word .quoted ('"' :: cut.1, cut.2))
      | none => .error .unterminatedQuoted)) := by
  rw [quoted, bump_cons h, pure_bind]
  simp only [quotedEnd_eq p h.step]
  cases hcut : Scan.quotedTail cs with
  | none => rfl
  | some cut =>
    have happend : '"' :: cut.1 ++ cut.2 = '"' :: cs :=
      congrArg ('"' :: ·) (Scan.quotedTail_append hcut)
    dsimp only
    rw [placed_word]
    exact word_eq .quoted h happend

lemma html_eq (h : p.Faces source ('<' :: cs)) : html source p =
    .ofExcept (placed p (match Scan.htmlTail 0 cs with
      | some cut => .ok (Scan.word .html ('<' :: cut.1, cut.2))
      | none => .error .unterminatedHtml)) := by
  -- the first bracket is counted before any other is closed
  have hfirst : htmlEnd source p (0, p) = htmlEnd source p (1, p.step '<') := by
    rw [htmlEnd, bump_cons h]
    rfl
  rw [html, hfirst, htmlEnd_eq p h.step]
  cases hcut : Scan.htmlTail 0 cs with
  | none => rfl
  | some cut =>
    have happend : '<' :: cut.1 ++ cut.2 = '<' :: cs :=
      congrArg ('<' :: ·) (Scan.htmlTail_append hcut)
    dsimp only
    rw [placed_word]
    exact word_eq .html h happend

lemma name_eq (h : p.Faces source (c :: cs)) (hc : Ident.isNameStart c = true) :
    name source p = .ofExcept (placed p (.ok (Scan.word .name
      (c :: cs.takeWhile Ident.isNameChar, cs.dropWhile Ident.isNameChar)))) := by
  have hchar : Ident.isNameChar c = true := by simp [Ident.isNameChar, hc]
  rw [name, takeWhile_eq _ h, List.takeWhile_cons_of_pos hchar, placed_word]
  rfl

/-- A point starts a numeral in front of a digit, and nothing else. -/
lemma point_eq (h : p.Faces source ('.' :: cs)) :
    lexeme source '.' p = .ofExcept (placed p (Scan.lexeme '.' cs)) := by
  have hpoint : Scan.lexeme '.' cs = if cs.head?.any Char.isDigit then
      .ok (Scan.word .numeral (Scan.unsignedNumeral ('.' :: cs)))
      else .error (.unexpectedChar '.') := by
    simp [Scan.lexeme, Scan.symbol?, Ident.isNameStart]
  have hlexeme : lexeme source '.' p = if cs.head?.any Char.isDigit then numeral source p
      else refuse ⟨p, .unexpectedChar '.'⟩ := by
    simp [lexeme, Scan.symbol?, peekSecond_eq h]
  rw [hpoint, hlexeme]
  split_ifs
  · exact unsigned_eq h (by decide)
  · rfl

theorem lexeme_eq (h : p.Faces source (c :: cs)) :
    lexeme source c p = .ofExcept (placed p (Scan.lexeme c cs)) := by
  by_cases hpoint : c = '.'
  · subst hpoint
    exact point_eq h
  rw [lexeme, Scan.lexeme]
  cases hs : Scan.symbol? c with
  | some s =>
    simp only [bump_cons h, pure_bind, placed, Lexeme.spelling, Scan.symbol?_spelling hs]
    rfl
  | none =>
    simp only [if_neg hpoint, decide_eq_false hpoint, Bool.false_and, Bool.or_false]
    split_ifs with hq ho hm hd hn
    · subst hq
      exact quoted_eq h
    · subst ho
      exact html_eq h
    · subst hm
      exact afterMinus_eq h
    · exact unsigned_eq h hm
    · exact name_eq h hn
    · rfl

/-- The next token is the lexeme behind the gap, where the gap and the lexeme are in order. -/
theorem nextToken_eq (h : p.Faces source cs) :
    nextToken source p = .ofExcept (match Scan.skip .blank p cs with
      | .error e => .error e
      | .ok (q, []) => .ok (⟨none, q⟩, q)
      | .ok (q, c :: unread) =>
        (placed q (Scan.lexeme c unread)).map fun r => (⟨some r.1, q⟩, r.2)) := by
  have hgap := resume_eq .blank h
  rw [resume] at hgap
  rw [nextToken, hgap]
  cases hskip : Scan.skip .blank p cs with
  | error e => rfl
  | ok r =>
    obtain ⟨q, rest⟩ := r
    obtain ⟨gone, rfl, rfl⟩ := Scan.skip_eq_ok hskip
    have hq := h.advance
    rw [Except.map_ok, ofExcept_ok, pure_bind, peek_eq hq, pure_bind]
    cases rest with
    | nil => rfl
    | cons c unread =>
      rw [List.head?_cons]
      dsimp only
      rw [lexeme_eq hq]
      cases Scan.lexeme c unread <;> rfl

/-- Behind a gap and the lexeme that follows it. -/
lemma faces_behind {q : Position} {unread rest : List Char} {x : Lexeme}
    (h : p.Faces source cs) (hskip : Scan.skip .blank p cs = .ok (q, c :: unread))
    (hread : Scan.lexeme c unread = .ok (x, rest)) :
    (q.advance x.spelling.toList).Faces source rest := by
  obtain ⟨gone, rfl, rfl⟩ := Scan.skip_eq_ok hskip
  rw [← Scan.lexeme_append hread] at h
  exact h.advance.advance

theorem tokensFrom_eq (h : p.Faces source cs) (read : List Mark) :
    tokensFrom source (p, read) =
      .ofExcept ((fun tokens => read ++ tokens.marks) <$> Scan.tokensFrom p cs) := by
  fun_induction Scan.tokensFrom p cs generalizing read with
  | case1 p cs e hs =>
    rw [tokensFrom, nextToken_eq h, hs]
    rfl
  | case2 p cs q hs =>
    rw [tokensFrom, nextToken_eq h, hs]
    rfl
  | case3 p cs q c unread hs fault hx =>
    rw [tokensFrom, nextToken_eq h, hs]
    simp only [hx]
    rfl
  | case4 p cs q c unread hs x rest hx e he ih
  | case5 p cs q c unread hs x rest hx tokens he ih =>
    have hgo := ih (faces_behind h hs hx) (read ++ [⟨some x, q⟩])
    rw [he] at hgo
    rw [tokensFrom, nextToken_eq h, hs]
    simp only [hx]
    refine hgo.trans ?_
    simp [Tokens.marks]

/-- The scanner finds the tokens of the source. It cuts no character, lowers no counter below
zero, and ends. -/
theorem tokenize_eq (source : String) :
    tokenize source = .ofExcept (Tokens.marks <$> Tokens.ofString source) :=
  tokensFrom_eq (Position.faces_start source) []

/-- A token and the place behind it, read from a place in the source. -/
structure Advances (source : String) (p : Position) (mark : Mark) (q : Position) : Prop where
  boundary : (⟨q.offset⟩ : String.Pos.Raw).IsValid source
  forward : mark.lexeme? ≠ none → p.offset < q.offset
  atEnd : mark.lexeme? = none → q.offset = source.utf8ByteSize

/-- Every call for a token ends, and the byte offset grows unless the source is at its end. -/
theorem nextToken_advances (h : p.Faces source cs) :
    Ends (nextToken source p) fun r => Advances source p r.1 r.2 := by
  refine ⟨_, nextToken_eq h, ?_⟩
  rintro ⟨mark, q⟩ hread
  cases hskip : Scan.skip .blank p cs with
  | error e => simp [hskip] at hread
  | ok r =>
    obtain ⟨start, rest⟩ := r
    obtain ⟨gone, rfl, rfl⟩ := Scan.skip_eq_ok hskip
    cases rest with
    | nil =>
      simp only [hskip, Except.ok.injEq, Prod.mk.injEq] at hread
      obtain ⟨rfl, rfl⟩ := hread
      exact ⟨Position.exists_faces_iff.1 ⟨_, h.advance⟩, fun hne => absurd rfl hne,
        fun _ => h.advance.offset_end⟩
    | cons c unread =>
      simp only [hskip] at hread
      cases hlexeme : Scan.lexeme c unread with
      | error fault => simp [hlexeme, placed, Except.map] at hread
      | ok r =>
        obtain ⟨x, rest⟩ := r
        simp only [hlexeme, placed, Except.map, Except.ok.injEq, Prod.mk.injEq] at hread
        obtain ⟨rfl, rfl⟩ := hread
        have hpos := octetCount_pos (Scan.lexeme_spelling_ne_nil hlexeme)
        refine ⟨Position.exists_faces_iff.1 ⟨_, faces_behind h hskip hlexeme⟩, fun _ => ?_, ?_⟩
        · rw [Position.offset_advance, Position.offset_advance]
          omega
        · rintro ⟨⟩

/-- The boundaries are the only places from which a call ends: inside of a character the first
look at the source traps. -/
theorem nextToken_ends_iff :
    Ends (nextToken source p) (fun _ => True) ↔ (⟨p.offset⟩ : String.Pos.Raw).IsValid source := by
  constructor
  · intro hends
    by_contra hp
    have hpeek : peek source p = throw (.trapped .offBoundary) := by
      rw [peek, slice, dif_neg fun h => hp h.1]
      rfl
    obtain ⟨read, hread, -⟩ := hends
    rw [nextToken, skipGaps, hpeek] at hread
    cases read <;> cases hread
  · intro hp
    obtain ⟨rest, hrest⟩ := Position.exists_faces_iff.2 hp
    exact (nextToken_advances hrest).mono fun _ _ => trivial

end OffsetScan

end DotGraph
