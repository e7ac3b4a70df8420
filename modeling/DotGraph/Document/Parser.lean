import DotGraph.Document
import DotGraph.Token.Scan

/-!
# Reading documents

Recursive descent over tokens. Each reader returns what it read with the tokens it left, and the
`_length` lemmas say that it left fewer than it was given, so that every loop ends. A refusal
keeps the tokens from the offending one on.
-/

namespace DotGraph

/-- Why a token sequence is no document, with the tokens from that place on. -/
inductive Refusal
  | unexpected (wanted : Wanted) (rest : List Token)
  | keywordAsIdent (text : String) (rest : List Token)

namespace Refusal

def rest : Refusal → List Token
  | unexpected _ rest => rest
  | keywordAsIdent _ rest => rest

/-- The error at the first token that is left, or at the end of the input. -/
def toSyntaxError (stop : Position) (r : Refusal) : SyntaxError where
  position := match r.rest with
    | [] => stop
    | token :: _ => token.position
  fault := match r with
    | unexpected wanted rest => .unexpected wanted (rest.head?.map (·.lexeme))
    | keywordAsIdent text _ => .keywordAsIdent text

end Refusal

namespace Parser

/-- The keyword at the front. -/
def keyword? : List Token → Option Keyword
  | [] => none
  | token :: _ => token.lexeme.keyword?

/-- The symbol at the front. -/
def symbol? : List Token → Option Symbol
  | ⟨.symbol s, _⟩ :: _ => some s
  | _ => none

/-- Drop a symbol that has to stand at the front. -/
def expect (s : Symbol) (wanted : Wanted) (ts : List Token) : Except Refusal (List Token) :=
  if symbol? ts = some s then .ok ts.tail else .error (.unexpected wanted ts)

/-- One literal in place of two: the quotes that meet fall away. -/
def joinQuoted (a b : String) : String := String.ofList (a.toList.dropLast ++ b.toList.drop 1)

/-- A literal with the ones that `+` appends to it. -/
def concatenation (literal : String) : List Token → Except Refusal (Ident × List Token)
  | ⟨.symbol .plus, _⟩ :: ⟨.word .quoted next, _⟩ :: ts =>
    concatenation (joinQuoted literal next) ts
  | ⟨.symbol .plus, _⟩ :: ts => .error (.unexpected .quotedText ts)
  | ts => .ok (⟨literal⟩, ts)

/-- A name that is no keyword, a numeral, or a literal. -/
def ident : List Token → Except Refusal (Ident × List Token)
  | ⟨.word .name text, p⟩ :: ts =>
    if (Keyword.ofText? text).isSome then
      .error (.keywordAsIdent text (⟨.word .name text, p⟩ :: ts))
    else .ok (⟨text⟩, ts)
  | ⟨.word .numeral text, _⟩ :: ts => .ok (⟨text⟩, ts)
  | ⟨.word .html text, _⟩ :: ts => .ok (⟨text⟩, ts)
  | ⟨.word .quoted text, _⟩ :: ts => concatenation text ts
  | ts => .error (.unexpected .identifier ts)

/-- The anchor behind a colon, with the second part it may have. -/
def anchor (ts : List Token) : Except Refusal (Option String × List Token) :=
  if symbol? ts = some .colon then do
    let (field, ts) ← ident ts.tail
    if symbol? ts = some .colon then do
      let (compass, ts) ← ident ts.tail
      .ok (some (field.text ++ ":" ++ compass.text), ts)
    else .ok (some field.text, ts)
  else .ok (none, ts)

def item (ts : List Token) : Except Refusal (Item × List Token) := do
  let (name, ts) ← ident ts
  if symbol? ts = some .equals then do
    let (value, ts) ← ident ts.tail
    .ok ((name, .text value), ts)
  else .ok ((name, .implicit), ts)

theorem concatenation_length {literal : String} {ts rest : List Token} {x : Ident}
    (h : concatenation literal ts = .ok (x, rest)) : rest.length ≤ ts.length := by
  fun_induction concatenation literal ts with
  | case1 _ _ _ _ _ ih => have := ih h; simp only [List.length_cons]; omega
  | case2 => simp at h
  | case3 => cases h; exact Nat.le_refl _

theorem ident_length {ts rest : List Token} {x : Ident} (h : ident ts = .ok (x, rest)) :
    rest.length < ts.length := by
  unfold ident at h
  split at h
  · split at h
    · simp at h
    · cases h; simp
  · cases h; simp
  · cases h; simp
  · have := concatenation_length h
    simp only [List.length_cons]
    omega
  · simp at h

theorem length_tail_lt {ts : List Token} {s : Symbol} (h : symbol? ts = some s) :
    ts.tail.length < ts.length := by
  cases ts with
  | nil => simp [symbol?] at h
  | cons => simp

theorem expect_length {s : Symbol} {wanted : Wanted} {ts rest : List Token}
    (h : expect s wanted ts = .ok rest) : rest.length < ts.length := by
  unfold expect at h
  split at h
  · rename_i hs
    cases h
    exact length_tail_lt hs
  · simp at h

theorem bind_eq_ok {x : Except ε α} {f : α → Except ε β} {b : β} :
    (x >>= f) = .ok b ↔ ∃ a, x = .ok a ∧ f a = .ok b := by
  cases x <;> simp [bind, Except.bind]

theorem anchor_length {ts rest : List Token} {x : Option String}
    (h : anchor ts = .ok (x, rest)) : rest.length ≤ ts.length := by
  unfold anchor at h
  split at h
  · rename_i hc
    obtain ⟨⟨field, ts₁⟩, h₁, h⟩ := bind_eq_ok.1 h
    have l₀ := length_tail_lt hc
    have l₁ := ident_length h₁
    dsimp only at h
    split at h
    · rename_i hc₁
      obtain ⟨⟨compass, ts₂⟩, h₂, h⟩ := bind_eq_ok.1 h
      have l₂ := length_tail_lt hc₁
      have l₃ := ident_length h₂
      cases h
      dsimp only
      omega
    · cases h
      omega
  · cases h
    exact Nat.le_refl _

theorem item_length {ts rest : List Token} {x : Item} (h : item ts = .ok (x, rest)) :
    rest.length < ts.length := by
  unfold item at h
  obtain ⟨⟨name, ts₁⟩, h₁, h⟩ := bind_eq_ok.1 h
  have l₁ := ident_length h₁
  dsimp only at h
  split at h
  · rename_i he
    obtain ⟨⟨value, ts₂⟩, h₂, h⟩ := bind_eq_ok.1 h
    have l₂ := length_tail_lt he
    have l₃ := ident_length h₂
    cases h
    dsimp only
    omega
  · cases h
    exact l₁

/-- The items up to the bracket that closes the last of the lists that follow each other. Commas
and semicolons separate nothing and may stand anywhere between items. -/
def items (ts : List Token) : Except Refusal (List Item × List Token) :=
  match ts with
  | [] => .error (.unexpected .closeBracket [])
  | ⟨.symbol .closeBracket, _⟩ :: ⟨.symbol .openBracket, _⟩ :: rest => items rest
  | ⟨.symbol .closeBracket, _⟩ :: rest => .ok ([], rest)
  | ⟨.symbol .comma, _⟩ :: rest => items rest
  | ⟨.symbol .semicolon, _⟩ :: rest => items rest
  | token :: rest =>
    match _read : item (token :: rest) with
    | .error e => .error e
    | .ok (first, rest) =>
      match items rest with
      | .error e => .error e
      | .ok (others, rest) => .ok (first :: others, rest)
termination_by ts.length
decreasing_by
  all_goals first
    | exact item_length _read
    | (simp only [List.length_cons]; omega)

/-- The items of the bracketed lists at the front, if there are any. -/
def attributeLists (ts : List Token) : Except Refusal (List Item × List Token) :=
  if symbol? ts = some .openBracket then items ts.tail else .ok ([], ts)

theorem items_length {ts rest : List Token} {xs : List Item} (h : items ts = .ok (xs, rest)) :
    rest.length < ts.length := by
  fun_induction items ts generalizing xs rest with
  | case1 => simp at h
  | case2 _ _ _ ih => have := ih h; simp only [List.length_cons]; omega
  | case3 => cases h; simp
  | case4 _ _ ih => have := ih h; simp only [List.length_cons]; omega
  | case5 _ _ ih => have := ih h; simp only [List.length_cons]; omega
  | case6 => simp at h
  | case7 => simp at h
  | case8 =>
    rename_i h₁ _ _ h₂ ih
    have := item_length h₁
    have := ih h₂
    cases h
    omega

theorem attributeLists_length {ts rest : List Token} {xs : List Item}
    (h : attributeLists ts = .ok (xs, rest)) : rest.length ≤ ts.length := by
  unfold attributeLists at h
  split at h
  · rename_i hb
    have := length_tail_lt hb
    have := items_length h
    omega
  · cases h
    exact Nat.le_refl _

/-- The lists of a default statement, which needs one at least. -/
def requiredLists (ts : List Token) : Except Refusal (List Item × List Token) :=
  if symbol? ts = some .openBracket then items ts.tail
  else .error (.unexpected .openBracket ts)

/-- A name that may be missing in front of the brace that opens a block. -/
def optionalName (ts : List Token) : Except Refusal (Option Ident × List Token) :=
  if symbol? ts = some .openBrace then .ok (none, ts)
  else do
    let (name, ts) ← ident ts
    .ok (some name, ts)

/-- The keyword and the name of a block, where it has them. -/
def blockName (ts : List Token) : Except Refusal (Option Ident × List Token) :=
  if keyword? ts = some .subgraph then optionalName ts.tail else .ok (none, ts)

/-- The head of a block, up to its opening brace. -/
def blockHead (ts : List Token) : Except Refusal (Option Ident × List Token) := do
  let (name, ts) ← blockName ts
  let ts ← expect .openBrace .openBrace ts
  .ok (name, ts)

/-- Whether a block starts here. -/
def atBlock (ts : List Token) : Bool :=
  keyword? ts = some .subgraph || symbol? ts = some .openBrace

def atEdgeOperator (ts : List Token) : Bool :=
  symbol? ts = some .arrow || symbol? ts = some .line

theorem tail_length_of_atEdgeOperator {ts : List Token} (h : atEdgeOperator ts = true) :
    ts.tail.length < ts.length := by
  simp only [atEdgeOperator, Bool.or_eq_true, decide_eq_true_eq] at h
  exact h.elim length_tail_lt length_tail_lt

def nodeTerminal (ts : List Token) : Except Refusal (Terminal × List Token) := do
  let (name, ts) ← ident ts
  let (anchor, ts) ← anchor ts
  .ok (.node name anchor, ts)

/-- The clause that starts with the given terminals. -/
def afterTerminals (first : Terminal) (others : List Terminal) (ts : List Token) :
    Except Refusal (Clause × List Token) :=
  match first, others with
  | first, second :: others => do
    let (items, ts) ← attributeLists ts
    .ok (.edges first second others items, ts)
  | .block block, [] => .ok (.block block, ts)
  | .node name anchor, [] =>
    if anchor.isNone && symbol? ts = some .equals then do
      let (value, ts) ← ident ts.tail
      .ok (.assign name value, ts)
    else do
      let (items, ts) ← attributeLists ts
      .ok (.node name anchor items, ts)

theorem optionalName_length {ts rest : List Token} {x : Option Ident}
    (h : optionalName ts = .ok (x, rest)) : rest.length ≤ ts.length := by
  unfold optionalName at h
  split at h
  · cases h
    exact Nat.le_refl _
  · obtain ⟨⟨name, ts₁⟩, h₁, h⟩ := bind_eq_ok.1 h
    have := ident_length h₁
    cases h
    omega

theorem blockHead_length {ts rest : List Token} {x : Option Ident}
    (h : blockHead ts = .ok (x, rest)) : rest.length < ts.length := by
  unfold blockHead at h
  obtain ⟨⟨name, ts₁⟩, h₁, h⟩ := bind_eq_ok.1 h
  obtain ⟨ts₂, h₂, h⟩ := bind_eq_ok.1 h
  have l₂ := expect_length h₂
  cases h
  unfold blockName at h₁
  split at h₁
  · have := optionalName_length h₁
    have : ts.tail.length ≤ ts.length := by simp
    omega
  · cases h₁
    exact l₂

theorem nodeTerminal_length {ts rest : List Token} {x : Terminal}
    (h : nodeTerminal ts = .ok (x, rest)) : rest.length < ts.length := by
  unfold nodeTerminal at h
  obtain ⟨⟨name, ts₁⟩, h₁, h⟩ := bind_eq_ok.1 h
  obtain ⟨⟨anchor, ts₂⟩, h₂, h⟩ := bind_eq_ok.1 h
  have := ident_length h₁
  have := anchor_length h₂
  cases h
  omega

theorem afterTerminals_length {first : Terminal} {others : List Terminal}
    {ts rest : List Token} {x : Clause} (h : afterTerminals first others ts = .ok (x, rest)) :
    rest.length ≤ ts.length := by
  unfold afterTerminals at h
  split at h
  · obtain ⟨⟨items, ts₁⟩, h₁, h⟩ := bind_eq_ok.1 h
    have := attributeLists_length h₁
    cases h
    omega
  · cases h
    exact Nat.le_refl _
  · split at h
    · rename_i hc
      simp only [Bool.and_eq_true, decide_eq_true_eq] at hc
      obtain ⟨⟨value, ts₁⟩, h₁, h⟩ := bind_eq_ok.1 h
      have := ident_length h₁
      have := length_tail_lt hc.2
      cases h
      omega
    · obtain ⟨⟨items, ts₁⟩, h₁, h⟩ := bind_eq_ok.1 h
      have := attributeLists_length h₁
      cases h
      omega

theorem requiredLists_length {ts rest : List Token} {xs : List Item}
    (h : requiredLists ts = .ok (xs, rest)) : rest.length < ts.length := by
  unfold requiredLists at h
  split at h
  · rename_i hb
    have := length_tail_lt hb
    have := items_length h
    omega
  · simp at h

/-- The clause of a keyword that takes bracketed lists, behind the keyword. -/
def listClause (make : List Item → Clause) (ts : List Token) :
    Except Refusal (Clause × List Token) := do
  let (items, rest) ← requiredLists ts
  .ok (make items, rest)

theorem listClause_length {make : List Item → Clause} {ts rest : List Token} {x : Clause}
    (h : listClause make ts = .ok (x, rest)) : rest.length < ts.length := by
  obtain ⟨⟨items, ts₁⟩, h₁, h⟩ := bind_eq_ok.1 h
  cases h
  exact requiredLists_length h₁

/-- What is read from tokens, with fewer of them left. -/
abbrev Shorter (α : Type) (ts : List Token) := { r : α × List Token // r.2.length < ts.length }

/-- A result with the proof that tokens were used up. -/
def Shorter.of {ts : List Token} (x : Except Refusal (α × List Token))
    (length : ∀ a rest, x = .ok (a, rest) → rest.length < ts.length) :
    Except Refusal (Shorter α ts) :=
  match x, length with
  | .error e, _ => .error e
  | .ok (a, rest), length => .ok ⟨(a, rest), length a rest rfl⟩

@[simp] theorem Shorter.map_of {ts : List Token} {x : Except Refusal (α × List Token)}
    {length : ∀ a rest, x = .ok (a, rest) → rest.length < ts.length} :
    (Shorter.of x length).map Subtype.val = x := by
  unfold Shorter.of
  split <;> rfl

theorem length_tail_le (ts : List Token) : ts.tail.length ≤ ts.length := by simp

theorem listClause_length_tail {make : List Item → Clause} {ts rest : List Token} {x : Clause}
    (h : listClause make ts.tail = .ok (x, rest)) : rest.length < ts.length :=
  Nat.lt_of_lt_of_le (listClause_length h) (length_tail_le ts)

mutual

def clausesShorter (ts : List Token) : Except Refusal (Shorter (List Clause) ts) :=
  match ts with
  | [] => .error (.unexpected .closeBrace [])
  | ⟨.symbol .closeBrace, _⟩ :: rest => .ok ⟨([], rest), Nat.lt_succ_self _⟩
  | ⟨.symbol .semicolon, _⟩ :: rest =>
    match clausesShorter rest with
    | .error e => .error e
    | .ok ⟨r, h⟩ => .ok ⟨r, Nat.lt_succ_of_lt h⟩
  | token :: rest =>
    match clauseShorter (token :: rest) with
    | .error e => .error e
    | .ok ⟨(first, unread), h⟩ =>
      match clausesShorter unread with
      | .error e => .error e
      | .ok ⟨(others, left), h'⟩ => .ok ⟨(first :: others, left), Nat.lt_trans h' h⟩
termination_by (ts.length, 3)

def clauseShorter (ts : List Token) : Except Refusal (Shorter Clause ts) :=
  match keyword? ts with
  | some .node =>
    Shorter.of (listClause (.defaults .node) ts.tail) fun _ _ => listClause_length_tail
  | some .edge =>
    Shorter.of (listClause (.defaults .edge) ts.tail) fun _ _ => listClause_length_tail
  | some .graph =>
    Shorter.of (listClause .graph ts.tail) fun _ _ => listClause_length_tail
  | _ =>
    match terminalsShorter ts with
    | .error e => .error e
    | .ok ⟨((first, others), rest), h⟩ =>
      Shorter.of (afterTerminals first others rest) fun _ _ read =>
        Nat.lt_of_le_of_lt (afterTerminals_length read) h
termination_by (ts.length, 2)

def terminalsShorter (ts : List Token) :
    Except Refusal (Shorter (Terminal × List Terminal) ts) :=
  match terminalShorter ts with
  | .error e => .error e
  | .ok ⟨(first, rest), h⟩ =>
    if _more : atEdgeOperator rest then
      match terminalsShorter rest.tail with
      | .error e => .error e
      | .ok ⟨((second, others), left), h'⟩ =>
        .ok ⟨((first, second :: others), left),
          Nat.lt_trans h' (Nat.lt_of_le_of_lt (length_tail_le rest) h)⟩
    else .ok ⟨((first, []), rest), h⟩
termination_by (ts.length, 1)
decreasing_by
  · exact Prod.Lex.right _ (by omega)
  · exact Prod.Lex.left _ _ (Nat.lt_of_le_of_lt (length_tail_le rest) h)

def terminalShorter (ts : List Token) : Except Refusal (Shorter Terminal ts) :=
  if atBlock ts then
    match _read : blockHead ts with
    | .error e => .error e
    | .ok (name, rest) =>
      match clausesShorter rest with
      | .error e => .error e
      | .ok ⟨(body, left), h⟩ =>
        .ok ⟨(.block ⟨name, body⟩, left), Nat.lt_trans h (blockHead_length _read)⟩
  else Shorter.of (nodeTerminal ts) fun _ _ => nodeTerminal_length
termination_by (ts.length, 0)
decreasing_by exact Prod.Lex.left _ _ (blockHead_length _read)

end

/-- The clauses up to the brace that closes them. -/
def clauses (ts : List Token) : Except Refusal (List Clause × List Token) :=
  (clausesShorter ts).map Subtype.val

def clause (ts : List Token) : Except Refusal (Clause × List Token) :=
  (clauseShorter ts).map Subtype.val

/-- Terminals with edge operators between them. -/
def terminals (ts : List Token) : Except Refusal ((Terminal × List Terminal) × List Token) :=
  (terminalsShorter ts).map Subtype.val

def terminal (ts : List Token) : Except Refusal (Terminal × List Token) :=
  (terminalShorter ts).map Subtype.val

theorem length_of_map {ts rest : List Token} {r : Except Refusal (Shorter α ts)} {x : α}
    (h : r.map Subtype.val = .ok (x, rest)) : rest.length < ts.length := by
  cases r with
  | error => simp [Except.map] at h
  | ok r =>
    obtain ⟨r, hr⟩ := r
    simp only [Except.map, Except.ok.injEq] at h
    subst h
    exact hr

theorem clauses_length {ts rest : List Token} {xs : List Clause}
    (h : clauses ts = .ok (xs, rest)) : rest.length < ts.length := length_of_map h

theorem clause_length {ts rest : List Token} {x : Clause} (h : clause ts = .ok (x, rest)) :
    rest.length < ts.length := length_of_map h

theorem terminal_length {ts rest : List Token} {x : Terminal} (h : terminal ts = .ok (x, rest)) :
    rest.length < ts.length := length_of_map h

theorem clauses_eq (ts : List Token) : clauses ts = (match ts with
    | [] => .error (.unexpected .closeBrace [])
    | ⟨.symbol .closeBrace, _⟩ :: rest => .ok ([], rest)
    | ⟨.symbol .semicolon, _⟩ :: rest => clauses rest
    | token :: rest => do
      let (first, unread) ← clause (token :: rest)
      let (others, left) ← clauses unread
      .ok (first :: others, left)) := by
  rw [clauses, clausesShorter.eq_def]
  split
  · rfl
  · rfl
  · simp only [clauses]
    split <;> rename_i h <;> rw [h] <;> rfl
  · simp only [clause]
    split
    · rename_i h; rw [h]; rfl
    · rename_i first unread _ h
      rw [h]
      simp only [clauses, Except.map, bind, Except.bind]
      cases clausesShorter unread <;> rfl

theorem clause_eq (ts : List Token) : clause ts = (match keyword? ts with
    | some .node => listClause (.defaults .node) ts.tail
    | some .edge => listClause (.defaults .edge) ts.tail
    | some .graph => listClause .graph ts.tail
    | _ => do
      let ((first, others), rest) ← terminals ts
      afterTerminals first others rest) := by
  rw [clause, clauseShorter.eq_def]
  split
  iterate 3 · exact Shorter.map_of
  simp only [terminals]
  split
  · rename_i h; rw [h]; rfl
  · rename_i h
    rw [h]
    exact Shorter.map_of

theorem terminals_eq (ts : List Token) : terminals ts = (do
    let (first, rest) ← terminal ts
    if atEdgeOperator rest then
      let ((second, others), left) ← terminals rest.tail
      .ok ((first, second :: others), left)
    else .ok ((first, []), rest)) := by
  rw [terminals, terminalsShorter]
  simp only [terminal]
  split
  · rename_i h; rw [h]; rfl
  · rename_i first rest _ h
    rw [h]
    simp only [terminals, Except.map, bind, Except.bind]
    by_cases more : atEdgeOperator rest
    · simp only [more, dif_pos, if_pos]
      cases terminalsShorter rest.tail <;> rfl
    · simp [more]

theorem terminal_eq (ts : List Token) : terminal ts =
    if atBlock ts then do
      let (name, rest) ← blockHead ts
      let (body, left) ← clauses rest
      .ok (.block ⟨name, body⟩, left)
    else nodeTerminal ts := by
  rw [terminal, terminalShorter]
  split
  · split
    · rename_i h
      simp [h, bind, Except.bind, Except.map]
    · rename_i name rest h
      simp only [clauses, h, Except.map, bind, Except.bind]
      cases clausesShorter rest <;> rfl
  · exact Shorter.map_of

def graphKind (ts : List Token) : Except Refusal (GraphKind × List Token) :=
  match keyword? ts with
  | some .graph => .ok (.graph, ts.tail)
  | some .digraph => .ok (.digraph, ts.tail)
  | _ => .error (.unexpected .graphKeyword ts)

/-- One graph, up to the brace that closes it. -/
def declaration (ts : List Token) : Except Refusal (Declaration × List Token) := do
  let strict := keyword? ts = some .strict
  let (kind, ts) ← graphKind (if strict then ts.tail else ts)
  let (name, ts) ← optionalName ts
  let ts ← expect .openBrace .openBrace ts
  let (body, ts) ← clauses ts
  .ok (⟨strict, kind, name, body⟩, ts)

theorem graphKind_length {ts rest : List Token} {x : GraphKind}
    (h : graphKind ts = .ok (x, rest)) : rest.length ≤ ts.length := by
  unfold graphKind at h
  split at h
  · cases h; simp
  · cases h; simp
  · simp at h

theorem declaration_length {ts rest : List Token} {x : Declaration}
    (h : declaration ts = .ok (x, rest)) : rest.length < ts.length := by
  unfold declaration at h
  obtain ⟨⟨kind, ts₁⟩, h₁, h⟩ := bind_eq_ok.1 h
  obtain ⟨⟨name, ts₂⟩, h₂, h⟩ := bind_eq_ok.1 h
  obtain ⟨ts₃, h₃, h⟩ := bind_eq_ok.1 h
  obtain ⟨⟨body, ts₄⟩, h₄, h⟩ := bind_eq_ok.1 h
  have l₁ := graphKind_length h₁
  have l₂ := optionalName_length h₂
  have l₃ := expect_length h₃
  have l₄ := clauses_length h₄
  cases h
  have : (if keyword? ts = some .strict then ts.tail else ts).length ≤ ts.length := by
    split <;> simp
  omega

/-- All graphs up to the end of the input, with semicolons anywhere between them. -/
def declarations (ts : List Token) : Except Refusal (List Declaration) :=
  match ts with
  | [] => .ok []
  | ⟨.symbol .semicolon, _⟩ :: rest => declarations rest
  | token :: rest =>
    match _read : declaration (token :: rest) with
    | .error e => .error e
    | .ok (first, unread) =>
      match declarations unread with
      | .error e => .error e
      | .ok others => .ok (first :: others)
termination_by ts.length
decreasing_by
  · simp
  · exact declaration_length _read

/-- A document holds one graph at least. -/
def document (ts : List Token) : Except Refusal Document :=
  match declarations ts with
  | .ok [] => .error (.unexpected .graphKeyword [])
  | result => result

end Parser

namespace Document

def ofTokens (tokens : Tokens) : Except SyntaxError Document :=
  (Parser.document tokens.list).mapError (Refusal.toSyntaxError tokens.stop)

/-- The document that a source text spells. -/
def ofString (source : String) : Except SyntaxError Document :=
  (Tokens.ofString source).bind ofTokens

end Document

end DotGraph
