import DotGraph.Proofs.CanonicalGraph

/-!
# The identifiers of documents

Every identifier of a document is spelled by lexemes of its source, so what holds of identifiers
that are spelled there holds of all identifiers in the document, at every depth.
-/

namespace DotGraph

open Grammar Scan

/-! ### Identifiers of clauses -/

section Idents

variable (W : Ident → Prop)

/-- `W` holds of the names of items and of the values that are there. -/
def AllItems (items : List Item) : Prop :=
  ∀ e ∈ items, W e.1 ∧ ∀ value ∈ e.2.ident?, W value

mutual

def Clause.AllIdents : Clause → Prop
  | .defaults _ items => AllItems W items
  | .graph items => AllItems W items
  | .assign name value => W name ∧ W value
  | .node name anchor items =>
    W name ∧ (∀ text ∈ anchor, IsAnchorText W text) ∧ AllItems W items
  | .edges first second others items =>
    first.AllIdents ∧ second.AllIdents ∧ Terminal.ListAllIdents others ∧ AllItems W items
  | .block b => b.AllIdents
termination_by structural c => c

def Terminal.AllIdents : Terminal → Prop
  | .node name anchor => W name ∧ ∀ text ∈ anchor, IsAnchorText W text
  | .block b => b.AllIdents
termination_by structural t => t

def Terminal.ListAllIdents : List Terminal → Prop
  | [] => True
  | t :: ts => t.AllIdents ∧ Terminal.ListAllIdents ts
termination_by structural ts => ts

def Block.AllIdents : Block → Prop
  | ⟨name, clauses⟩ => (∀ x ∈ name, W x) ∧ Clause.ListAllIdents clauses
termination_by structural b => b

def Clause.ListAllIdents : List Clause → Prop
  | [] => True
  | c :: cs => c.AllIdents ∧ Clause.ListAllIdents cs
termination_by structural cs => cs

end

/-- `W` holds of the name of a declared graph and of the identifiers in its clauses. -/
def Declaration.AllIdents (d : Declaration) : Prop :=
  (∀ x ∈ d.name, W x) ∧ Clause.ListAllIdents W d.clauses

end Idents

/-! ### Identifiers of sources -/

/-- Identifiers that are spelled by the lexemes of a source. -/
def IsSpelled (source : List Lexeme) (x : Ident) : Prop :=
  ∃ xs, IsIdent xs x ∧ xs ⊆ source

section Source

variable {source : List Lexeme} {W : Ident → Prop}

lemma isAnchorText_of_isAnchor (hW : ∀ x, IsSpelled source x → W x)
    {xs : List Lexeme} {anchor : Option String} (h : IsAnchor xs anchor) (hs : xs ⊆ source) :
    ∀ text ∈ anchor, IsAnchorText W text := by
  rintro text rfl
  cases h with
  | field h => exact .inl ⟨_, hW _ ⟨_, h, fun y hy => hs (by simp [hy])⟩, rfl⟩
  | compass h h' =>
    exact .inr ⟨_, _, hW _ ⟨_, h, fun y hy => hs (by simp [hy])⟩,
      hW _ ⟨_, h', fun y hy => hs (by simp [hy])⟩, rfl⟩

lemma allItems_of_isItems (hW : ∀ x, IsSpelled source x → W x)
    {xs : List Lexeme} {items : List Item} (h : IsItems xs items) (hs : xs ⊆ source) :
    AllItems W items := by
  induction h with
  | nil => simp [AllItems]
  | comma h ih | semicolon h ih => exact ih fun y hy => hs (by simp [hy])
  | cons h h' ih =>
    intro e he
    rcases List.mem_cons.1 he with rfl | he
    · cases h with
      | implicit h =>
        exact ⟨hW _ ⟨_, h, fun y hy => hs (by simp [hy])⟩, by simp [AttrValue.ident?]⟩
      | text h h' =>
        refine ⟨hW _ ⟨_, h, fun y hy => hs (by simp [hy])⟩, ?_⟩
        rintro value ⟨⟩
        exact hW _ ⟨_, h', fun y hy => hs (by simp [hy])⟩
    · exact ih (fun y hy => hs (by simp [hy])) e he

lemma allItems_of_isLists (hW : ∀ x, IsSpelled source x → W x)
    {xs : List Lexeme} {items : List Item} (h : IsLists xs items) (hs : xs ⊆ source) :
    AllItems W items := by
  induction h with
  | nil => simp [AllItems]
  | cons h h' ih =>
    intro e he
    rcases List.mem_append.1 he with he | he
    · exact allItems_of_isItems hW h (fun y hy => hs (by simp [hy])) e he
    · exact ih (fun y hy => hs (by simp [hy])) e he

lemma name_of_isName (hW : ∀ x, IsSpelled source x → W x)
    {xs : List Lexeme} {name : Option Ident} (h : IsName xs name) (hs : xs ⊆ source) :
    ∀ x ∈ name, W x := by
  rintro x rfl
  cases h with
  | some h => exact hW _ ⟨_, h, hs⟩

mutual

theorem allIdents_of_isClauses (hW : ∀ x, IsSpelled source x → W x)
    {xs : List Lexeme} {clauses : List Clause} :
    IsClauses xs clauses → xs ⊆ source → Clause.ListAllIdents W clauses
  | .nil, _ => trivial
  | .semicolon h, hs => allIdents_of_isClauses hW h fun _ hy => hs (List.mem_cons_of_mem _ hy)
  | .cons h h', hs =>
    ⟨allIdents_of_isClause hW h fun _ hy => hs (List.mem_append_left _ hy),
      allIdents_of_isClauses hW h' fun _ hy => hs (List.mem_append_right _ hy)⟩

theorem allIdents_of_isClause (hW : ∀ x, IsSpelled source x → W x)
    {xs : List Lexeme} {clause : Clause} :
    IsClause xs clause → xs ⊆ source → clause.AllIdents W
  | .defaults _ h _, hs => allItems_of_isLists hW h fun _ hy => hs (by simp [hy])
  | .graph _ h _, hs => allItems_of_isLists hW h fun _ hy => hs (by simp [hy])
  | .assign h h', hs =>
    ⟨hW _ ⟨_, h, fun _ hy => hs (by simp [hy])⟩, hW _ ⟨_, h', fun _ hy => hs (by simp [hy])⟩⟩
  | .node h h' hl, hs =>
    ⟨hW _ ⟨_, h, fun _ hy => hs (by simp [hy])⟩,
      isAnchorText_of_isAnchor hW h' fun _ hy => hs (by simp [hy]),
      allItems_of_isLists hW hl fun _ hy => hs (by simp [hy])⟩
  | .block h, hs => allIdents_of_isBlock hW h hs
  | .edges h _ h' ht hl, hs =>
    ⟨allIdents_of_isTerminal hW h fun _ hy => hs (by simp [hy]),
      allIdents_of_isTerminal hW h' fun _ hy => hs (by simp [hy]),
      allIdents_of_isTerminals hW ht fun _ hy => hs (by simp [hy]),
      allItems_of_isLists hW hl fun _ hy => hs (by simp [hy])⟩

theorem allIdents_of_isTerminal (hW : ∀ x, IsSpelled source x → W x)
    {xs : List Lexeme} {terminal : Terminal} :
    IsTerminal xs terminal → xs ⊆ source → terminal.AllIdents W
  | .node h h', hs =>
    ⟨hW _ ⟨_, h, fun _ hy => hs (by simp [hy])⟩,
      isAnchorText_of_isAnchor hW h' fun _ hy => hs (by simp [hy])⟩
  | .block h, hs => allIdents_of_isBlock hW h hs

theorem allIdents_of_isTerminals (hW : ∀ x, IsSpelled source x → W x)
    {xs : List Lexeme} {terminals : List Terminal} :
    IsTerminals xs terminals → xs ⊆ source → Terminal.ListAllIdents W terminals
  | .nil, _ => trivial
  | .cons _ h h', hs =>
    ⟨allIdents_of_isTerminal hW h fun _ hy => hs (by simp [hy]),
      allIdents_of_isTerminals hW h' fun _ hy => hs (by simp [hy])⟩

theorem allIdents_of_isBlock (hW : ∀ x, IsSpelled source x → W x)
    {xs : List Lexeme} {block : Block} :
    IsBlock xs block → xs ⊆ source → block.AllIdents W
  | .bare h, hs => ⟨by simp, allIdents_of_isClauses hW h fun _ hy => hs (by simp [hy])⟩
  | .subgraph _ hn h, hs =>
    ⟨name_of_isName hW hn fun _ hy => hs (by simp [hy]),
      allIdents_of_isClauses hW h fun _ hy => hs (by simp [hy])⟩

end

/-- The identifiers of a document are spelled by lexemes of its source. -/
theorem allIdents_of_isDeclarations (hW : ∀ x, IsSpelled source x → W x)
    {xs : List Lexeme} {ds : List Declaration}
    (h : IsDeclarations xs ds) (hs : xs ⊆ source) :
    ∀ d ∈ ds, d.AllIdents W := by
  induction h with
  | nil => simp
  | semicolon h ih => exact ih fun y hy => hs (by simp [hy])
  | cons h h' ih =>
    intro d hd
    rcases List.mem_cons.1 hd with rfl | hd
    · obtain ⟨-, -, hn, hc⟩ := h
      exact ⟨name_of_isName hW hn fun y hy => hs (by simp [hy]),
        allIdents_of_isClauses hW hc fun y hy => hs (by simp [hy])⟩
    · exact ih (fun y hy => hs (by simp [hy])) d hd

end Source

end DotGraph
