import DotGraph.Proofs.Grammar

/-!
# Braces

Where a declaration ends can be told from the braces alone: at the one that closes the first.
Two declarations that start the same sequence of lexemes are therefore the same lexemes.
-/

namespace DotGraph.Grammar

/-- The lexemes end with the brace that closes the last of `depth` open ones. Before the first
brace there are words and plus signs. -/
inductive Closes : Nat → List Lexeme → Prop
  | word {depth : Nat} {kind : WordKind} {text : String} {xs : List Lexeme}
      (h : Closes depth xs) : Closes depth (.word kind text :: xs)
  | openBrace {depth : Nat} {xs : List Lexeme} (h : Closes (depth + 1) xs) :
      Closes depth (.symbol .openBrace :: xs)
  | closeBrace {depth : Nat} {xs : List Lexeme} (h : Closes (depth + 1) xs) :
      Closes (depth + 2) (.symbol .closeBrace :: xs)
  | last : Closes 1 [.symbol .closeBrace]
  | symbol {depth : Nat} {s : Symbol} {xs : List Lexeme}
      (hs : s ≠ .openBrace ∧ s ≠ .closeBrace) (hd : depth = 0 → s = .plus)
      (h : Closes depth xs) : Closes depth (.symbol s :: xs)

/-- No sequence that closes is the start of a longer one. -/
theorem Closes.eq_of_append {depth : Nat} {xs ys as bs : List Lexeme} (hx : Closes depth xs)
    (hy : Closes depth ys) (h : xs ++ as = ys ++ bs) : xs = ys := by
  induction hx generalizing ys with
  | word _ ih =>
    cases hy with
    | word hy =>
      obtain ⟨hhead, htail⟩ := List.cons.inj h
      rw [hhead, ih hy htail]
    | openBrace | closeBrace | last | symbol => simp at h
  | openBrace _ ih =>
    cases hy with
    | openBrace hy => rw [ih hy (List.cons.inj h).2]
    | symbol hs => simp [Ne.symm hs.1] at h
    | word | closeBrace | last => simp at h
  | closeBrace _ ih =>
    cases hy with
    | closeBrace hy => rw [ih hy (List.cons.inj h).2]
    | symbol hs => simp [Ne.symm hs.2] at h
    | word | openBrace => simp at h
  | last =>
    cases hy with
    | last => rfl
    | symbol hs => simp [Ne.symm hs.2] at h
    | word | openBrace => simp at h
  | symbol hs _ _ ih =>
    cases hy with
    | symbol _ _ hy =>
      obtain ⟨hhead, htail⟩ := List.cons.inj h
      rw [hhead, ih hy htail]
    | openBrace => simp [hs.1] at h
    | closeBrace | last => simp [hs.2] at h
    | word => simp at h

lemma Closes.ne_nil {depth : Nat} {xs : List Lexeme} (h : Closes depth xs) : xs ≠ [] := by
  cases h <;> exact List.cons_ne_nil _ _

lemma not_closes_semicolon {xs : List Lexeme} : ¬ Closes 0 (.symbol .semicolon :: xs) := by
  intro h
  cases h with
  | symbol _ hd => exact absurd (hd rfl) (by decide)

/-- The lexemes leave it open where the rest closes. -/
def KeepsDepth (xs : List Lexeme) : Prop :=
  ∀ depth ys, Closes (depth + 1) ys → Closes (depth + 1) (xs ++ ys)

lemma keepsDepth_nil : KeepsDepth [] := fun _ _ h => h

lemma KeepsDepth.append {xs ys : List Lexeme} (hx : KeepsDepth xs) (hy : KeepsDepth ys) :
    KeepsDepth (xs ++ ys) := by
  intro depth zs h
  rw [List.append_assoc]
  exact hx depth _ (hy depth zs h)

lemma KeepsDepth.symbol {s : Symbol} {xs : List Lexeme} (hs : s ≠ .openBrace ∧ s ≠ .closeBrace)
    (h : KeepsDepth xs) : KeepsDepth (.symbol s :: xs) :=
  fun depth ys hy => .symbol hs (by simp) (h depth ys hy)

lemma KeepsDepth.keyword {x : Lexeme} {k : Keyword} {xs : List Lexeme} (hx : x.keyword? = some k)
    (h : KeepsDepth xs) : KeepsDepth (x :: xs) := by
  intro depth ys hy
  cases x with
  | word kind text => exact .word (h depth ys hy)
  | symbol s => simp [Lexeme.keyword?] at hx

lemma KeepsDepth.braces {xs : List Lexeme} (h : KeepsDepth xs) :
    KeepsDepth (.symbol .openBrace :: (xs ++ [.symbol .closeBrace])) := by
  intro depth ys hy
  rw [List.cons_append, List.append_assoc]
  exact .openBrace (h (depth + 1) _ (.closeBrace hy))

/-- Identifiers leave it open at any depth, in front of the first brace too. -/
lemma closes_of_isConcatenation {a b : String} {xs : List Lexeme} (h : IsConcatenation a xs b)
    {depth : Nat} {ys : List Lexeme} (hy : Closes depth ys) : Closes depth (xs ++ ys) := by
  induction h with
  | nil => exact hy
  | cons _ ih => exact .symbol (by decide) (fun _ => rfl) (.word ih)

lemma closes_of_isIdent {xs : List Lexeme} {x : Ident} (h : IsIdent xs x) {depth : Nat}
    {ys : List Lexeme} (hy : Closes depth ys) : Closes depth (xs ++ ys) := by
  cases h with
  | name | numeral | html => exact .word hy
  | quoted h => exact .word (closes_of_isConcatenation h hy)

lemma closes_of_isName {xs : List Lexeme} {name : Option Ident} (h : IsName xs name) {depth : Nat}
    {ys : List Lexeme} (hy : Closes depth ys) : Closes depth (xs ++ ys) := by
  cases h with
  | none => exact hy
  | some h => exact closes_of_isIdent h hy

lemma keepsDepth_of_isIdent {xs : List Lexeme} {x : Ident} (h : IsIdent xs x) : KeepsDepth xs :=
  fun _ _ hy => closes_of_isIdent h hy

lemma keepsDepth_of_isAnchor {xs : List Lexeme} {anchor : Option String} (h : IsAnchor xs anchor) :
    KeepsDepth xs := by
  cases h with
  | none => exact keepsDepth_nil
  | field h => exact .symbol (by decide) (keepsDepth_of_isIdent h)
  | compass h h' =>
    exact .symbol (by decide)
      ((keepsDepth_of_isIdent h).append (.symbol (by decide) (keepsDepth_of_isIdent h')))

lemma keepsDepth_of_isItem {xs : List Lexeme} {item : Item} (h : IsItem xs item) :
    KeepsDepth xs := by
  cases h with
  | implicit h => exact keepsDepth_of_isIdent h
  | text h h' =>
    exact (keepsDepth_of_isIdent h).append (.symbol (by decide) (keepsDepth_of_isIdent h'))

lemma keepsDepth_of_isItems {xs : List Lexeme} {items : List Item} (h : IsItems xs items) :
    KeepsDepth xs := by
  induction h with
  | nil => exact keepsDepth_nil
  | comma _ ih => exact .symbol (by decide) ih
  | semicolon _ ih => exact .symbol (by decide) ih
  | cons h _ ih => exact (keepsDepth_of_isItem h).append ih

lemma keepsDepth_of_isLists {xs : List Lexeme} {items : List Item} (h : IsLists xs items) :
    KeepsDepth xs := by
  induction h with
  | nil => exact keepsDepth_nil
  | cons h _ ih =>
    exact .symbol (by decide) ((keepsDepth_of_isItems h).append (.symbol (by decide) ih))

lemma KeepsDepth.operator {o : Lexeme} {xs : List Lexeme} (ho : IsEdgeOperator o)
    (h : KeepsDepth xs) : KeepsDepth (o :: xs) := by
  cases ho <;> exact .symbol (by decide) h

mutual

lemma keepsDepth_of_isClauses {xs : List Lexeme} {clauses : List Clause} :
    IsClauses xs clauses → KeepsDepth xs
  | .nil => keepsDepth_nil
  | .semicolon h => .symbol (by decide) (keepsDepth_of_isClauses h)
  | .cons h h' => (keepsDepth_of_isClause h).append (keepsDepth_of_isClauses h')

lemma keepsDepth_of_isClause {xs : List Lexeme} {clause : Clause} :
    IsClause xs clause → KeepsDepth xs
  | .defaults hx h _ => .keyword hx (keepsDepth_of_isLists h)
  | .graph hx h _ => .keyword hx (keepsDepth_of_isLists h)
  | .assign h h' =>
    (keepsDepth_of_isIdent h).append (.symbol (by decide) (keepsDepth_of_isIdent h'))
  | .node h h' hl =>
    (keepsDepth_of_isIdent h).append ((keepsDepth_of_isAnchor h').append (keepsDepth_of_isLists hl))
  | .block h => keepsDepth_of_isBlock h
  | .edges h ho h' hs hl =>
    (keepsDepth_of_isTerminal h).append (.operator ho ((keepsDepth_of_isTerminal h').append
      ((keepsDepth_of_isTerminals hs).append (keepsDepth_of_isLists hl))))

lemma keepsDepth_of_isTerminal {xs : List Lexeme} {terminal : Terminal} :
    IsTerminal xs terminal → KeepsDepth xs
  | .node h h' => (keepsDepth_of_isIdent h).append (keepsDepth_of_isAnchor h')
  | .block h => keepsDepth_of_isBlock h

lemma keepsDepth_of_isTerminals {xs : List Lexeme} {terminals : List Terminal} :
    IsTerminals xs terminals → KeepsDepth xs
  | .nil => keepsDepth_nil
  | .cons ho h h' =>
    .operator ho ((keepsDepth_of_isTerminal h).append (keepsDepth_of_isTerminals h'))

lemma keepsDepth_of_isBlock {xs : List Lexeme} {block : Block} :
    IsBlock xs block → KeepsDepth xs
  | .bare h => (keepsDepth_of_isClauses h).braces
  | .subgraph hx hn h => by
    have hname : KeepsDepth _ := fun _ _ hy => closes_of_isName hn hy
    exact .keyword hx (hname.append (keepsDepth_of_isClauses h).braces)

end

/-- A declaration ends at the brace that closes its first one. -/
theorem closes_of_isDeclaration {xs : List Lexeme} {d : Declaration} (h : IsDeclaration xs d) :
    Closes 0 xs := by
  obtain ⟨hs, hx, hn, hc⟩ := h
  have hword {x : Lexeme} {k : Keyword} {xs : List Lexeme} (hx : x.keyword? = some k)
      (h : Closes 0 xs) : Closes 0 (x :: xs) := by
    cases x with
    | word kind text => exact .word h
    | symbol s => simp [Lexeme.keyword?] at hx
  have hbody := closes_of_isName hn (.openBrace (keepsDepth_of_isClauses hc 0 _ .last))
  cases hs with
  | absent => exact hword hx hbody
  | present hs => exact hword hs (hword hx hbody)

/-- What stands in front of the rest and closes is the first declaration. -/
theorem isDeclaration_of_closes {xs ys : List Lexeme} {ds : List Declaration} (hx : Closes 0 xs)
    (h : IsDeclarations (xs ++ ys) ds) :
    ∃ d others, ds = d :: others ∧ IsDeclaration xs d ∧ IsDeclarations ys others := by
  generalize hz : xs ++ ys = zs at h
  cases h with
  | nil => exact absurd (List.append_eq_nil_iff.1 hz).1 hx.ne_nil
  | semicolon h =>
    cases xs with
    | nil => exact absurd rfl hx.ne_nil
    | cons x xs =>
      cases (List.cons.inj hz).1
      exact absurd hx not_closes_semicolon
  | cons h h' =>
    have heq := hx.eq_of_append (closes_of_isDeclaration h) hz
    subst heq
    rw [List.append_cancel_left hz]
    exact ⟨_, _, rfl, h, h'⟩

end DotGraph.Grammar
