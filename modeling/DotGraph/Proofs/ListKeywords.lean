import DotGraph.Proofs.Grammar
import Mathlib.Data.List.Chain

/-!
# Keywords in front of lists

A list of attributes may follow the keywords of nodes, of edges and of graphs. Behind the other
keywords no list stands anywhere in a document.
-/

namespace DotGraph

def Keyword.takesList : Keyword → Bool
  | node | edge | graph => true
  | digraph | subgraph | strict => false

namespace Grammar

/-- A list that opens behind a keyword stands behind one that takes it. -/
def MayPrecede (x y : Lexeme) : Prop :=
  y = .symbol .openBracket → ∀ k ∈ x.keyword?, k.takesList = true

instance : DecidableRel MayPrecede := fun x y =>
  inferInstanceAs (Decidable (y = .symbol .openBracket → ∀ k ∈ x.keyword?, k.takesList = true))

/-- No list stands behind a keyword that takes none. -/
def IsGuarded (xs : List Lexeme) : Prop := xs.IsChain MayPrecede

instance (xs : List Lexeme) : Decidable (IsGuarded xs) :=
  inferInstanceAs (Decidable (xs.IsChain MayPrecede))

/-- The lexemes may stand in front of any others, a list included. -/
def KeepsGuarded (xs : List Lexeme) : Prop := ∀ ys, IsGuarded ys → IsGuarded (xs ++ ys)

lemma KeepsGuarded.isGuarded {xs : List Lexeme} (h : KeepsGuarded xs) : IsGuarded xs := by
  have hguarded := h [] List.isChain_nil
  rwa [List.append_nil] at hguarded

lemma keepsGuarded_nil : KeepsGuarded [] := fun _ h => h

lemma KeepsGuarded.append {xs ys : List Lexeme} (hx : KeepsGuarded xs) (hy : KeepsGuarded ys) :
    KeepsGuarded (xs ++ ys) := by
  intro zs h
  rw [List.append_assoc]
  exact hx _ (hy zs h)

lemma KeepsGuarded.cons {x : Lexeme} {xs : List Lexeme}
    (hx : ∀ k ∈ x.keyword?, k.takesList = true) (h : KeepsGuarded xs) :
    KeepsGuarded (x :: xs) := by
  intro ys hy
  refine List.isChain_cons.2 ⟨?_, h ys hy⟩
  intro y _ _
  exact hx

lemma KeepsGuarded.symbol {s : Symbol} {xs : List Lexeme} (h : KeepsGuarded xs) :
    KeepsGuarded (.symbol s :: xs) := h.cons (by simp [Lexeme.keyword?])

lemma KeepsGuarded.keyword {x y : Lexeme} {xs : List Lexeme} (hy : y ≠ .symbol .openBracket)
    (h : KeepsGuarded (y :: xs)) : KeepsGuarded (x :: y :: xs) := by
  intro ys hguarded
  refine List.isChain_cons_cons.2 ⟨?_, h ys hguarded⟩
  intro hopen
  exact absurd hopen hy

lemma KeepsGuarded.braces {xs : List Lexeme} (h : KeepsGuarded xs) :
    KeepsGuarded (.symbol .openBrace :: (xs ++ [.symbol .closeBrace])) :=
  (h.append keepsGuarded_nil.symbol).symbol

/-! ### Documents -/

lemma keepsGuarded_of_isConcatenation {a b : String} {xs : List Lexeme}
    (h : IsConcatenation a xs b) : KeepsGuarded xs := by
  induction h with
  | nil => exact keepsGuarded_nil
  | cons _ ih => exact (ih.cons (by simp [Lexeme.keyword?])).symbol

lemma keepsGuarded_of_isIdent {xs : List Lexeme} {x : Ident} (h : IsIdent xs x) :
    KeepsGuarded xs := by
  cases h with
  | name hk => exact keepsGuarded_nil.cons (by simp [Lexeme.keyword?, hk])
  | numeral | html => exact keepsGuarded_nil.cons (by simp [Lexeme.keyword?])
  | quoted h => exact (keepsGuarded_of_isConcatenation h).cons (by simp [Lexeme.keyword?])

lemma keepsGuarded_of_isAnchor {xs : List Lexeme} {anchor : Option String}
    (h : IsAnchor xs anchor) : KeepsGuarded xs := by
  cases h with
  | none => exact keepsGuarded_nil
  | field h => exact (keepsGuarded_of_isIdent h).symbol
  | compass h h' =>
    exact ((keepsGuarded_of_isIdent h).append (keepsGuarded_of_isIdent h').symbol).symbol

lemma keepsGuarded_of_isItems {xs : List Lexeme} {items : List Item} (h : IsItems xs items) :
    KeepsGuarded xs := by
  induction h with
  | nil => exact keepsGuarded_nil
  | comma _ ih => exact ih.symbol
  | semicolon _ ih => exact ih.symbol
  | cons h _ ih =>
    cases h with
    | implicit h => exact (keepsGuarded_of_isIdent h).append ih
    | text h h' =>
      exact ((keepsGuarded_of_isIdent h).append (keepsGuarded_of_isIdent h').symbol).append ih

lemma keepsGuarded_of_isLists {xs : List Lexeme} {items : List Item} (h : IsLists xs items) :
    KeepsGuarded xs := by
  induction h with
  | nil => exact keepsGuarded_nil
  | cons h _ ih => exact ((keepsGuarded_of_isItems h).append ih.symbol).symbol

/-- Behind the keyword of a graph or a subgraph there is a name or a brace. -/
lemma KeepsGuarded.named {x : Lexeme} {xs ys : List Lexeme} {name : Option Ident}
    (hn : IsName xs name) (h : KeepsGuarded ys) :
    KeepsGuarded (x :: (xs ++ .symbol .openBrace :: (ys ++ [.symbol .closeBrace]))) := by
  cases hn with
  | none => exact h.braces.keyword (by decide)
  | some hident =>
    have hrest := (keepsGuarded_of_isIdent hident).append h.braces
    cases hident with
    | name | numeral | html | quoted => exact hrest.keyword (by simp)

mutual

lemma keepsGuarded_of_isClauses {xs : List Lexeme} {clauses : List Clause} :
    IsClauses xs clauses → KeepsGuarded xs
  | .nil => keepsGuarded_nil
  | .semicolon h => (keepsGuarded_of_isClauses h).symbol
  | .cons h h' => (keepsGuarded_of_isClause h).append (keepsGuarded_of_isClauses h')

lemma keepsGuarded_of_isClause {xs : List Lexeme} {clause : Clause} :
    IsClause xs clause → KeepsGuarded xs
  | @IsClause.defaults _ kind _ _ hx h _ => by
    refine (keepsGuarded_of_isLists h).cons ?_
    rw [hx]
    cases kind <;> simp [ElementKind.keyword, Keyword.takesList]
  | .graph hx h _ => (keepsGuarded_of_isLists h).cons (by simp [hx, Keyword.takesList])
  | .assign h h' => (keepsGuarded_of_isIdent h).append (keepsGuarded_of_isIdent h').symbol
  | .node h h' hl =>
    (keepsGuarded_of_isIdent h).append
      ((keepsGuarded_of_isAnchor h').append (keepsGuarded_of_isLists hl))
  | .block h => keepsGuarded_of_isBlock h
  | .edges h ho h' hs hl => by
    have hrest := (keepsGuarded_of_isTerminal h').append
      ((keepsGuarded_of_isTerminals hs).append (keepsGuarded_of_isLists hl))
    refine (keepsGuarded_of_isTerminal h).append ?_
    cases ho <;> exact hrest.symbol

lemma keepsGuarded_of_isTerminal {xs : List Lexeme} {terminal : Terminal} :
    IsTerminal xs terminal → KeepsGuarded xs
  | .node h h' => (keepsGuarded_of_isIdent h).append (keepsGuarded_of_isAnchor h')
  | .block h => keepsGuarded_of_isBlock h

lemma keepsGuarded_of_isTerminals {xs : List Lexeme} {terminals : List Terminal} :
    IsTerminals xs terminals → KeepsGuarded xs
  | .nil => keepsGuarded_nil
  | .cons ho h h' => by
    have hrest := (keepsGuarded_of_isTerminal h).append (keepsGuarded_of_isTerminals h')
    cases ho <;> exact hrest.symbol

lemma keepsGuarded_of_isBlock {xs : List Lexeme} {block : Block} :
    IsBlock xs block → KeepsGuarded xs
  | .bare h => (keepsGuarded_of_isClauses h).braces
  | .subgraph _ hn h => .named hn (keepsGuarded_of_isClauses h)

end

lemma keepsGuarded_of_isDeclaration {xs : List Lexeme} {d : Declaration}
    (h : IsDeclaration xs d) : KeepsGuarded xs := by
  obtain @⟨x, ss, xs, ys, strict, kind, name, clauses, hs, hx, hn, hc⟩ := h
  have hgraph := KeepsGuarded.named (x := x) hn (keepsGuarded_of_isClauses hc)
  cases hs with
  | absent => exact hgraph
  | present => exact hgraph.keyword (by rintro rfl; simp [Lexeme.keyword?] at hx)

/-- In a document, no list stands behind a keyword that takes none. -/
theorem isGuarded_of_isDeclarations {xs : List Lexeme} {ds : List Declaration}
    (h : IsDeclarations xs ds) : IsGuarded xs := by
  apply KeepsGuarded.isGuarded
  induction h with
  | nil => exact keepsGuarded_nil
  | semicolon _ ih => exact ih.symbol
  | cons h _ ih => exact (keepsGuarded_of_isDeclaration h).append ih

end Grammar

end DotGraph
