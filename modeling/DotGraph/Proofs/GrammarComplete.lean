import DotGraph.Proofs.GrammarSound

/-!
# What derives is read

The readers take the longest continuation that they see, so each of them is shown to read a
derivable sequence in front of lexemes that cannot go on with it. Clauses may stand next to each
other without a separator: what starts a clause, or ends a block, goes on with no clause.
-/

namespace DotGraph.Grammar

/-- The symbol at the front. -/
def frontSymbol? : List Lexeme → Option Symbol
  | .symbol s :: _ => some s
  | _ => none

/-- The keyword at the front. -/
def frontKeyword? : List Lexeme → Option Keyword
  | x :: _ => x.keyword?
  | [] => none

lemma symbol?_eq (ts : List Token) : Parser.symbol? ts = frontSymbol? (lexemes ts) := by
  cases ts with
  | nil => rfl
  | cons t ts =>
    obtain ⟨x, p⟩ := t
    cases x <;> rfl

lemma keyword?_eq (ts : List Token) : Parser.keyword? ts = frontKeyword? (lexemes ts) := by
  cases ts <;> rfl

lemma frontSymbol?_of_keyword? {x : Lexeme} {k : Keyword} (h : x.keyword? = some k)
    (ys : List Lexeme) : frontSymbol? (x :: ys) = none := by
  cases x with
  | word => rfl
  | symbol => simp [Lexeme.keyword?] at h

/-- Reading succeeds with the tree and leaves the given lexemes. -/
def Leaves (read : Except Refusal (α × List Token)) (a : α) (ys : List Lexeme) : Prop :=
  ∃ rest, lexemes rest = ys ∧ read = .ok (a, rest)

lemma Leaves.bind {read : Except Refusal (α × List Token)} {a : α} {ys zs : List Lexeme}
    {f : α × List Token → Except Refusal (β × List Token)} {b : β} (h : Leaves read a ys)
    (hf : ∀ rest, lexemes rest = ys → Leaves (f (a, rest)) b zs) : Leaves (read >>= f) b zs := by
  obtain ⟨rest, hrest, rfl⟩ := h
  exact hf rest hrest

lemma Leaves.ok {ts : List Token} {a : α} {ys : List Lexeme} (h : lexemes ts = ys) :
    Leaves (.ok (a, ts)) a ys :=
  ⟨ts, h, rfl⟩

lemma exists_of_lexemes_cons {ts : List Token} {x : Lexeme} {ys : List Lexeme}
    (h : lexemes ts = x :: ys) : ∃ p rest, ts = ⟨x, p⟩ :: rest ∧ lexemes rest = ys := by
  obtain ⟨t, rest, rfl, rfl, rfl⟩ := List.map_eq_cons_iff.1 h
  exact ⟨t.position, rest, rfl, rfl⟩

lemma lexemes_tail {ts : List Token} {x : Lexeme} {ys : List Lexeme}
    (h : lexemes ts = x :: ys) : lexemes ts.tail = ys := by
  obtain ⟨p, rest, rfl, rfl⟩ := exists_of_lexemes_cons h
  rfl

/-- The symbols that go on with an identifier, an anchor or a chain. -/
def extendsTerminal (ys : List Lexeme) : Prop :=
  frontSymbol? ys ∈ [some .plus, some .colon, some .arrow, some .line]

/-- The symbols that go on with a clause. -/
def extendsClause (ys : List Lexeme) : Prop :=
  frontSymbol? ys ∈
    [some .plus, some .colon, some .arrow, some .line, some .equals, some .openBracket]

lemma concatenation_complete {a b : String} {xs ys : List Lexeme} (h : IsConcatenation a xs b)
    {ts : List Token} (hts : lexemes ts = xs ++ ys) (hf : frontSymbol? ys ≠ some .plus) :
    Leaves (Parser.concatenation a ts) ⟨b⟩ ys := by
  induction h generalizing ts with
  | nil a =>
    unfold Parser.concatenation
    split
    · simp [lexemes] at hts
      simp [← hts, frontSymbol?] at hf
    · simp [lexemes] at hts
      simp [← hts, frontSymbol?] at hf
    · exact .ok hts
  | cons h ih =>
    obtain ⟨p, us, rfl, hus⟩ := exists_of_lexemes_cons hts
    obtain ⟨q, vs, rfl, hvs⟩ := exists_of_lexemes_cons hus
    rw [Parser.concatenation]
    exact ih hvs

lemma ident_complete {xs ys : List Lexeme} {x : Ident} (h : IsIdent xs x) {ts : List Token}
    (hts : lexemes ts = xs ++ ys) (hf : frontSymbol? ys ≠ some .plus) :
    Leaves (Parser.ident ts) x ys := by
  cases h with
  | name h =>
    obtain ⟨p, us, rfl, hus⟩ := exists_of_lexemes_cons hts
    exact ⟨us, hus, by simp [Parser.ident, h]⟩
  | numeral =>
    obtain ⟨p, us, rfl, hus⟩ := exists_of_lexemes_cons hts
    exact .ok hus
  | html =>
    obtain ⟨p, us, rfl, hus⟩ := exists_of_lexemes_cons hts
    exact .ok hus
  | quoted h =>
    obtain ⟨p, us, rfl, hus⟩ := exists_of_lexemes_cons hts
    exact concatenation_complete h hus hf

/-- An identifier starts with a word that is no keyword. -/
lemma IsIdent.front {xs : List Lexeme} {x : Ident} (h : IsIdent xs x) (ys : List Lexeme) :
    xs ≠ [] ∧ frontSymbol? (xs ++ ys) = none ∧ frontKeyword? (xs ++ ys) = none := by
  cases h with
  | name h => exact ⟨by simp, rfl, h⟩
  | numeral => exact ⟨by simp, rfl, rfl⟩
  | html => exact ⟨by simp, rfl, rfl⟩
  | quoted => exact ⟨by simp, rfl, rfl⟩

lemma anchor_complete {xs ys : List Lexeme} {x : Option String} (h : IsAnchor xs x)
    {ts : List Token} (hts : lexemes ts = xs ++ ys) (hp : frontSymbol? ys ≠ some .plus)
    (hc : frontSymbol? ys ≠ some .colon) : Leaves (Parser.anchor ts) x ys := by
  unfold Parser.anchor
  cases h with
  | none =>
    rw [if_neg (by rwa [symbol?_eq, hts])]
    exact .ok hts
  | field h =>
    rw [if_pos (by rw [symbol?_eq, hts]; rfl)]
    apply (ident_complete h (lexemes_tail hts) hp).bind
    intro rest hrest
    dsimp only
    rw [if_neg (by rwa [symbol?_eq, hrest])]
    exact .ok hrest
  | compass h h' =>
    rw [if_pos (by rw [symbol?_eq, hts]; rfl)]
    rw [List.cons_append, List.append_assoc] at hts
    have htail := lexemes_tail hts
    apply (ident_complete h htail (by simp [frontSymbol?])).bind
    intro rest hrest
    dsimp only
    rw [if_pos (by rw [symbol?_eq, hrest]; rfl)]
    exact (ident_complete h' (lexemes_tail hrest) hp).bind fun rest hrest => .ok hrest

lemma item_complete {xs ys : List Lexeme} {x : Item} (h : IsItem xs x) {ts : List Token}
    (hts : lexemes ts = xs ++ ys) (hp : frontSymbol? ys ≠ some .plus)
    (he : frontSymbol? ys ≠ some .equals) : Leaves (Parser.item ts) x ys := by
  unfold Parser.item
  cases h with
  | implicit h =>
    apply (ident_complete h hts hp).bind
    intro rest hrest
    dsimp only
    rw [if_neg (by rwa [symbol?_eq, hrest])]
    exact .ok hrest
  | text h h' =>
    rw [List.append_assoc] at hts
    apply (ident_complete h hts (by simp [frontSymbol?])).bind
    intro rest hrest
    dsimp only
    rw [if_pos (by rw [symbol?_eq, hrest]; rfl)]
    exact (ident_complete h' (lexemes_tail hrest) hp).bind fun rest hrest => .ok hrest

lemma IsItem.front {xs : List Lexeme} {x : Item} (h : IsItem xs x) (ys : List Lexeme) :
    xs ≠ [] ∧ frontSymbol? (xs ++ ys) = none := by
  cases h with
  | implicit h => exact ⟨(h.front ys).1, (h.front ys).2.1⟩
  | text h => exact ⟨by simp, by rw [List.append_assoc]; exact (h.front _).2.1⟩

/-- Behind the items of a list stands what no item goes on with. -/
lemma IsItems.front {xs : List Lexeme} {items : List Item} (h : IsItems xs items)
    (ys : List Lexeme) : frontSymbol? (xs ++ .symbol .closeBracket :: ys) ∈
      [none, some .comma, some .semicolon, some .closeBracket] := by
  cases h with
  | nil => simp [frontSymbol?]
  | comma => simp [frontSymbol?]
  | semicolon => simp [frontSymbol?]
  | cons h h' => simp [(h.front _).2]

/-- Items that do not start with a bracket, comma or semicolon start with an item. -/
lemma items_of_front {ts : List Token} (hne : ts ≠ [])
    (hf : frontSymbol? (lexemes ts) = none) :
    Parser.items ts = (Parser.item ts >>= fun r => Parser.items r.2 >>= fun r' =>
      .ok (r.1 :: r'.1, r'.2)) := by
  conv_lhs => rw [Parser.items.eq_def]
  split
  · exact absurd rfl hne
  · simp [lexemes, frontSymbol?] at hf
  · simp [lexemes, frontSymbol?] at hf
  · simp [lexemes, frontSymbol?] at hf
  · simp [lexemes, frontSymbol?] at hf
  · split
    · rename_i h
      rw [h]
      rfl
    · rename_i rest h
      rw [h]
      simp only [bind, Except.bind]
      cases Parser.items rest <;> rfl

lemma items_complete_of {xs ys zs : List Lexeme} {items others : List Item} (h : IsItems xs items)
    (hclose : ∀ ts, lexemes ts = .symbol .closeBracket :: ys → Leaves (Parser.items ts) others zs)
    {ts : List Token} (hts : lexemes ts = xs ++ .symbol .closeBracket :: ys) :
    Leaves (Parser.items ts) (items ++ others) zs := by
  induction h generalizing ts with
  | nil => exact hclose ts hts
  | comma h ih =>
    obtain ⟨p, us, rfl, hus⟩ := exists_of_lexemes_cons hts
    rw [Parser.items]
    exact ih hus
  | semicolon h ih =>
    obtain ⟨p, us, rfl, hus⟩ := exists_of_lexemes_cons hts
    rw [Parser.items]
    exact ih hus
  | cons h h' ih =>
    rw [List.append_assoc] at hts
    obtain ⟨hne, hfront⟩ := h.front (_ ++ .symbol .closeBracket :: ys)
    have hfollow := h'.front ys
    rw [items_of_front (by rintro rfl; simp [lexemes, hne] at hts) (by rw [hts]; exact hfront)]
    refine (item_complete h hts ?_ ?_).bind fun rest hrest => ?_
    · intro hp
      simp [hp] at hfollow
    · intro he
      simp [he] at hfollow
    · exact (ih hrest).bind fun rest hrest => .ok hrest

lemma items_complete {xs ys zs : List Lexeme} {items others : List Item} (h : IsItems xs items)
    (h' : IsLists ys others) (hf : frontSymbol? zs ≠ some .openBracket) {ts : List Token}
    (hts : lexemes ts = xs ++ .symbol .closeBracket :: (ys ++ zs)) :
    Leaves (Parser.items ts) (items ++ others) zs := by
  induction h' generalizing xs items ts with
  | nil =>
    refine items_complete_of h (fun ts hts => ?_) hts
    obtain ⟨p, us, rfl, hus⟩ := exists_of_lexemes_cons hts
    rw [Parser.items.eq_def]
    split <;> rename_i heq
    · simp at heq
    · simp only [List.cons.injEq] at heq
      obtain ⟨_, rfl⟩ := heq
      rw [List.nil_append] at hus
      rw [← hus] at hf
      exact absurd rfl hf
    · simp only [List.cons.injEq] at heq
      obtain ⟨_, rfl⟩ := heq
      exact .ok hus
    · simp at heq
    · simp at heq
    · rename_i hclose _ _
      simp only [List.cons.injEq] at heq
      exact absurd heq.1.symm (hclose p)
  | cons h₁ h₂ ih =>
    refine items_complete_of h (fun ts hts => ?_) hts
    obtain ⟨p, us, rfl, hus⟩ := exists_of_lexemes_cons hts
    obtain ⟨q, vs, rfl, hvs⟩ := exists_of_lexemes_cons hus
    rw [Parser.items]
    exact ih h₁ (by simpa using hvs)

lemma attributeLists_complete {xs ys : List Lexeme} {items : List Item} (h : IsLists xs items)
    {ts : List Token} (hts : lexemes ts = xs ++ ys)
    (hf : frontSymbol? ys ≠ some .openBracket) : Leaves (Parser.attributeLists ts) items ys := by
  unfold Parser.attributeLists
  cases h with
  | nil =>
    rw [if_neg (by rwa [symbol?_eq, hts])]
    exact .ok hts
  | cons h h' =>
    rw [if_pos (by rw [symbol?_eq, hts]; rfl)]
    rw [List.cons_append, List.append_assoc] at hts
    exact items_complete h h' hf (lexemes_tail hts)

lemma requiredLists_complete {xs ys : List Lexeme} {items : List Item} (h : IsLists xs items)
    (hne : xs ≠ []) {ts : List Token} (hts : lexemes ts = xs ++ ys)
    (hf : frontSymbol? ys ≠ some .openBracket) : Leaves (Parser.requiredLists ts) items ys := by
  unfold Parser.requiredLists
  cases h with
  | nil => exact absurd rfl hne
  | cons h h' =>
    rw [if_pos (by rw [symbol?_eq, hts]; rfl)]
    rw [List.cons_append, List.append_assoc] at hts
    exact items_complete h h' hf (lexemes_tail hts)

lemma IsLists.front {xs : List Lexeme} {items : List Item} (h : IsLists xs items)
    (ys : List Lexeme) : frontSymbol? (xs ++ ys) = some .openBracket ∨ xs = [] := by
  cases h with
  | nil => exact .inr rfl
  | cons => exact .inl rfl

lemma optionalName_complete {xs ys : List Lexeme} {name : Option Ident} (h : IsName xs name)
    {ts : List Token} (hts : lexemes ts = xs ++ .symbol .openBrace :: ys) :
    Leaves (Parser.optionalName ts) name (.symbol .openBrace :: ys) := by
  unfold Parser.optionalName
  cases h with
  | none =>
    rw [if_pos (by rw [symbol?_eq, hts]; rfl)]
    exact .ok hts
  | some h =>
    rw [if_neg (by rw [symbol?_eq, hts, (h.front _).2.1]; simp)]
    exact (ident_complete h hts (by simp [frontSymbol?])).bind fun rest hrest => .ok hrest

lemma expect_complete {s : Symbol} {ts : List Token} {ys : List Lexeme}
    (hts : lexemes ts = .symbol s :: ys) (wanted : Wanted) :
    ∃ rest, lexemes rest = ys ∧ Parser.expect s wanted ts = .ok rest := by
  refine ⟨ts.tail, lexemes_tail hts, ?_⟩
  rw [Parser.expect, if_pos (by rw [symbol?_eq, hts]; rfl)]

lemma blockHead_complete {xs ys : List Lexeme} {name : Option Ident}
    (h : xs = [] ∧ name = none ∨
      ∃ x ns, xs = x :: ns ∧ x.keyword? = some .subgraph ∧ IsName ns name)
    {ts : List Token} (hts : lexemes ts = xs ++ .symbol .openBrace :: ys) :
    Leaves (Parser.blockHead ts) name ys := by
  have hname : Leaves (Parser.blockName ts) name (.symbol .openBrace :: ys) := by
    unfold Parser.blockName
    rcases h with ⟨rfl, rfl⟩ | ⟨x, ns, rfl, hx, hn⟩
    · rw [if_neg (by rw [keyword?_eq, hts]; simp [frontKeyword?, Lexeme.keyword?])]
      exact .ok hts
    · rw [if_pos (by rw [keyword?_eq, hts]; exact hx)]
      exact optionalName_complete hn (lexemes_tail hts)
  apply hname.bind
  intro rest hrest
  obtain ⟨left, hleft, hok⟩ := expect_complete hrest .openBrace
  exact ⟨left, hleft, by simp [hok, bind, Except.bind]⟩

/-- A block starts with an opening brace or with its keyword. -/
lemma IsBlock.front {xs : List Lexeme} {block : Block} (h : IsBlock xs block)
    (ys : List Lexeme) : xs ≠ [] ∧
      (frontSymbol? (xs ++ ys) = some .openBrace ∧ frontKeyword? (xs ++ ys) = none ∨
        frontSymbol? (xs ++ ys) = none ∧ frontKeyword? (xs ++ ys) = some .subgraph) := by
  cases h with
  | bare => exact ⟨by simp, .inl ⟨rfl, rfl⟩⟩
  | subgraph hx => exact ⟨by simp, .inr ⟨frontSymbol?_of_keyword? hx _, hx⟩⟩

lemma IsTerminal.front {xs : List Lexeme} {terminal : Terminal} (h : IsTerminal xs terminal)
    (ys : List Lexeme) : xs ≠ [] ∧ frontSymbol? (xs ++ ys) ∈ [none, some .openBrace] ∧
      frontKeyword? (xs ++ ys) ∈ [none, some .subgraph] := by
  cases h with
  | @node as bs _ _ h =>
    have := h.front (bs ++ ys)
    rw [List.append_assoc]
    exact ⟨by simp [this.1], by simp [this.2.1], by simp [this.2.2]⟩
  | block h => rcases h.front ys with ⟨hne, ⟨hs, hk⟩ | ⟨hs, hk⟩⟩ <;> simp [hne, hs, hk]

/-- A clause starts with a word or an opening brace. -/
lemma IsClause.front {xs : List Lexeme} {clause : Clause} (h : IsClause xs clause)
    (ys : List Lexeme) : xs ≠ [] ∧ frontSymbol? (xs ++ ys) ∈ [none, some .openBrace] := by
  cases h with
  | defaults hx => exact ⟨by simp, by simp [frontSymbol?_of_keyword? hx]⟩
  | graph hx => exact ⟨by simp, by simp [frontSymbol?_of_keyword? hx]⟩
  | assign h =>
    rw [List.append_assoc]
    exact ⟨by simp, by simp [(h.front _).2.1]⟩
  | node h =>
    rw [List.append_assoc]
    exact ⟨by simp [(h.front []).1], by simp [(h.front _).2.1]⟩
  | block h => rcases h.front ys with ⟨hne, ⟨hs, _⟩ | ⟨hs, _⟩⟩ <;> simp [hne, hs]
  | edges h =>
    rw [List.append_assoc]
    exact ⟨by simp, (h.front _).2.1⟩

/-- No clause goes on with what stands behind it. -/
lemma IsClauses.front {xs : List Lexeme} {clauses : List Clause} (h : IsClauses xs clauses)
    (ys : List Lexeme) : ¬extendsClause (xs ++ .symbol .closeBrace :: ys) := by
  unfold extendsClause
  cases h with
  | nil => simp [frontSymbol?]
  | semicolon => simp [frontSymbol?]
  | @cons as bs _ _ h =>
    have hfront := (h.front (bs ++ .symbol .closeBrace :: ys)).2
    rw [List.append_assoc]
    intro hmem
    simp only [List.mem_cons, List.not_mem_nil, or_false] at hfront hmem
    rcases hfront with hfront | hfront <;> simp [hfront] at hmem

/-- Tokens that neither end nor separate clauses start with a clause. -/
lemma clauses_of_front {ts : List Token} (hne : ts ≠ [])
    (hf : frontSymbol? (lexemes ts) ∈ [none, some .openBrace]) :
    Parser.clauses ts = (Parser.clause ts >>= fun r => Parser.clauses r.2 >>= fun r' =>
      .ok (r.1 :: r'.1, r'.2)) := by
  conv_lhs => rw [Parser.clauses_eq]
  split
  · exact absurd rfl hne
  · simp [lexemes, frontSymbol?] at hf
  · simp [lexemes, frontSymbol?] at hf
  · rfl

/-- A clause that starts with no keyword of a list is read as a chain. -/
lemma clause_of_front {ts : List Token}
    (hf : frontKeyword? (lexemes ts) ∈ [none, some .subgraph]) :
    Parser.clause ts = (Parser.terminals ts >>= fun r =>
      Parser.afterTerminals r.1.1 r.1.2 r.2) := by
  rw [Parser.clause_eq, keyword?_eq]
  simp only [List.mem_cons, List.not_mem_nil, or_false] at hf
  rcases hf with hf | hf <;> rw [hf]

lemma clause_of_keyword {make : List Item → Clause} {k : Keyword} {x : Lexeme}
    {xs ys : List Lexeme} {items : List Item}
    (hmake : ∀ ts, Parser.keyword? ts = some k → Parser.clause ts = Parser.listClause make ts.tail)
    (hx : x.keyword? = some k) (h : IsLists xs items) (hne : xs ≠ []) {ts : List Token}
    (hts : lexemes ts = x :: xs ++ ys) (hf : frontSymbol? ys ≠ some .openBracket) :
    Leaves (Parser.clause ts) (make items) ys := by
  rw [hmake ts (by rw [keyword?_eq, hts]; exact hx)]
  exact (requiredLists_complete h hne (lexemes_tail hts) hf).bind fun rest hrest => .ok hrest

lemma atEdgeOperator_iff (ts : List Token) : Parser.atEdgeOperator ts = true ↔
    frontSymbol? (lexemes ts) = some .arrow ∨ frontSymbol? (lexemes ts) = some .line := by
  simp [Parser.atEdgeOperator, symbol?_eq]

lemma IsEdgeOperator.front {o : Lexeme} (h : IsEdgeOperator o) (ys : List Lexeme) :
    frontSymbol? (o :: ys) = some .arrow ∨ frontSymbol? (o :: ys) = some .line := by
  cases h with
  | arrow => exact .inl rfl
  | line => exact .inr rfl

lemma IsEdgeOperator.front_ne {o : Lexeme} (h : IsEdgeOperator o) (ys : List Lexeme) :
    frontSymbol? (o :: ys) ≠ some .plus ∧ frontSymbol? (o :: ys) ≠ some .colon := by
  cases h <;> simp [frontSymbol?]

lemma ne_of_not_extendsTerminal {ys : List Lexeme} (hf : ¬extendsTerminal ys) :
    frontSymbol? ys ≠ some .plus ∧ frontSymbol? ys ≠ some .colon := by
  constructor <;> intro h <;> exact hf (by simp [extendsTerminal, h])

/-- Further terminals start with an edge operator, if there are any. -/
lemma IsTerminals.front {xs : List Lexeme} {terminals : List Terminal}
    (h : IsTerminals xs terminals) {ys : List Lexeme} (hf : ¬extendsTerminal ys) :
    frontSymbol? (xs ++ ys) ≠ some .plus ∧ frontSymbol? (xs ++ ys) ≠ some .colon := by
  cases h with
  | nil => exact ne_of_not_extendsTerminal hf
  | cons ho => exact ho.front_ne _

lemma IsAnchor.front {xs : List Lexeme} {anchor : Option String} (h : IsAnchor xs anchor)
    (ys : List Lexeme) : frontSymbol? (xs ++ ys) = some .colon ∨ xs = [] := by
  cases h with
  | none => exact .inr rfl
  | field => exact .inl rfl
  | compass => exact .inl rfl

lemma IsLists.follow {xs ys : List Lexeme} {items : List Item} (h : IsLists xs items)
    (hf : ¬extendsClause ys) :
    ¬extendsTerminal (xs ++ ys) ∧ frontSymbol? (xs ++ ys) ≠ some .equals := by
  rcases h.front ys with hb | rfl
  · simp [extendsTerminal, hb]
  · constructor <;> intro h <;> refine hf ?_
    · simp only [extendsTerminal, List.nil_append, List.mem_cons, List.not_mem_nil,
        or_false] at h
      rcases h with h | h | h | h <;> simp [extendsClause, h]
    · rw [List.nil_append] at h
      simp [extendsClause, h]

lemma nodeTerminal_complete {xs ys zs : List Lexeme} {name : Ident} {anchor : Option String}
    (h : IsIdent xs name) (h' : IsAnchor ys anchor) {ts : List Token}
    (hts : lexemes ts = xs ++ (ys ++ zs)) (hp : frontSymbol? zs ≠ some .plus)
    (hc : frontSymbol? zs ≠ some .colon) :
    Leaves (Parser.terminal ts) (.node name anchor) zs := by
  obtain ⟨-, hs, hk⟩ := h.front (ys ++ zs)
  have hat : Parser.atBlock ts = false := by
    simp [Parser.atBlock, symbol?_eq, keyword?_eq, hts, hs, hk]
  have hplus : frontSymbol? (ys ++ zs) ≠ some .plus := by
    rcases h'.front zs with h | rfl
    · simp [h]
    · exact hp
  rw [Parser.terminal_eq, hat]
  apply (ident_complete h hts hplus).bind
  intro rest hrest
  exact (anchor_complete h' hrest hp hc).bind fun rest hrest => .ok hrest

lemma terminals_of_last {ts : List Token} {first : Terminal} {ys : List Lexeme}
    (h : Leaves (Parser.terminal ts) first ys) (hf : ¬extendsTerminal ys) :
    Leaves (Parser.terminals ts) (first, []) ys := by
  rw [Parser.terminals_eq]
  apply h.bind
  intro rest hrest
  have hop : ¬Parser.atEdgeOperator rest = true := by
    rw [atEdgeOperator_iff, hrest]
    rintro (h | h) <;> exact hf (by simp [extendsTerminal, h])
  dsimp only
  rw [if_neg hop]
  exact .ok hrest

lemma terminals_of_more {ts : List Token} {first second : Terminal} {others : List Terminal}
    {o : Lexeme} {ys zs : List Lexeme} (h : Leaves (Parser.terminal ts) first (o :: ys))
    (ho : IsEdgeOperator o)
    (hs : ∀ us, lexemes us = ys → Leaves (Parser.terminals us) (second, others) zs) :
    Leaves (Parser.terminals ts) (first, second :: others) zs := by
  rw [Parser.terminals_eq]
  apply h.bind
  intro rest hrest
  have hop : Parser.atEdgeOperator rest = true := by
    rw [atEdgeOperator_iff, hrest]
    exact ho.front ys
  dsimp only
  rw [if_pos hop]
  exact (hs _ (lexemes_tail hrest)).bind fun rest hrest => .ok hrest

lemma block_complete {xs ys zs : List Lexeme} {name : Option Ident} {clauses : List Clause}
    (h : xs = [] ∧ name = none ∨
      ∃ x ns, xs = x :: ns ∧ x.keyword? = some .subgraph ∧ IsName ns name)
    (hs : ∀ us, lexemes us = ys → Leaves (Parser.clauses us) clauses zs)
    {ts : List Token} (hts : lexemes ts = xs ++ .symbol .openBrace :: ys) :
    Leaves (Parser.terminal ts) (.block ⟨name, clauses⟩) zs := by
  have hat : Parser.atBlock ts = true := by
    rcases h with ⟨rfl, -⟩ | ⟨x, ns, rfl, hx, -⟩
    · simp [Parser.atBlock, symbol?_eq, hts, frontSymbol?]
    · simp [Parser.atBlock, keyword?_eq, hts, frontKeyword?, hx]
  rw [Parser.terminal_eq, if_pos hat]
  apply (blockHead_complete h hts).bind
  intro rest hrest
  exact (hs rest hrest).bind fun rest hrest => .ok hrest

mutual

theorem clauses_complete {xs ys : List Lexeme} {clauses : List Clause} {ts : List Token} :
    IsClauses xs clauses → lexemes ts = xs ++ .symbol .closeBrace :: ys →
      Leaves (Parser.clauses ts) clauses ys
  | .nil, hts => by
    obtain ⟨p, us, rfl, hus⟩ := exists_of_lexemes_cons hts
    rw [Parser.clauses_eq]
    exact .ok hus
  | .semicolon h, hts => by
    obtain ⟨p, us, rfl, hus⟩ := exists_of_lexemes_cons hts
    rw [Parser.clauses_eq]
    exact clauses_complete h hus
  | .cons h h', hts => by
    rw [List.append_assoc] at hts
    obtain ⟨hne, hfront⟩ := h.front (_ ++ .symbol .closeBrace :: ys)
    rw [clauses_of_front (by rintro rfl; simp [lexemes, hne] at hts) (by rw [hts]; exact hfront)]
    apply (clause_complete h hts (h'.front ys)).bind
    intro rest hrest
    exact (clauses_complete h' hrest).bind fun rest hrest => .ok hrest

theorem clause_complete {xs ys : List Lexeme} {clause : Clause} {ts : List Token} :
    IsClause xs clause → lexemes ts = xs ++ ys → ¬extendsClause ys →
      Leaves (Parser.clause ts) clause ys
  | @IsClause.defaults _ kind _ _ hx h hne, hts, hf => by
    refine clause_of_keyword (fun ts hk => ?_) hx h hne hts fun hb => hf ?_
    · rw [Parser.clause_eq, hk]
      cases kind <;> rfl
    · simp [extendsClause, hb]
  | .graph hx h hne, hts, hf => by
    refine clause_of_keyword (fun ts hk => ?_) hx h hne hts fun hb => hf ?_
    · rw [Parser.clause_eq, hk]
    · simp [extendsClause, hb]
  | .assign h h', hts, hf => by
    rw [List.append_assoc] at hts
    rw [clause_of_front (by rw [hts, (h.front _).2.2]; simp)]
    have hfirst := nodeTerminal_complete h .none hts (by simp [frontSymbol?])
      (by simp [frontSymbol?])
    refine (terminals_of_last hfirst (by simp [extendsTerminal, frontSymbol?])).bind
      fun rest hrest => ?_
    have hequals : Parser.symbol? rest = some .equals := by rw [symbol?_eq, hrest]; rfl
    simp only [Parser.afterTerminals, Option.isNone_none, hequals, decide_true, Bool.and_self,
      if_true]
    refine (ident_complete h' (lexemes_tail hrest) ?_).bind fun rest hrest => .ok hrest
    intro hp
    exact hf (by simp [extendsClause, hp])
  | .node h h' hl, hts, hf => by
    rw [List.append_assoc, List.append_assoc] at hts
    obtain ⟨hterm, hequals⟩ := hl.follow hf
    obtain ⟨hp, hc⟩ := ne_of_not_extendsTerminal hterm
    rw [clause_of_front (by rw [hts, (h.front _).2.2]; simp)]
    have hfirst := nodeTerminal_complete h h' hts hp hc
    apply (terminals_of_last hfirst hterm).bind
    intro rest hrest
    rw [← hrest, ← symbol?_eq] at hequals
    simp only [Parser.afterTerminals, hequals, decide_false, Bool.and_false, Bool.false_eq_true,
      if_false]
    refine (attributeLists_complete hl hrest ?_).bind fun rest hrest => .ok hrest
    intro hb
    exact hf (by simp [extendsClause, hb])
  | .block h, hts, hf => by
    obtain ⟨-, hfront⟩ := h.front ys
    have hterm : ¬extendsTerminal ys := (IsLists.nil.follow hf).1
    rw [clause_of_front (by rw [hts]; rcases hfront with ⟨_, h⟩ | ⟨_, h⟩ <;> simp [h])]
    apply (terminals_of_last (blockTerminal_complete h hts) hterm).bind
    intro rest hrest
    exact .ok hrest
  | .edges h ho h' hs hl, hts, hf => by
    obtain ⟨hterm, -⟩ := hl.follow hf
    simp only [List.append_assoc, List.cons_append] at hts
    obtain ⟨hp, hc⟩ := hs.front hterm
    have hfirst := terminal_complete h hts (ho.front_ne _).1 (ho.front_ne _).2
    rw [clause_of_front (by rw [hts]; exact (h.front _).2.2)]
    refine (terminals_of_more hfirst ho fun us hus =>
      terminals_complete hs (terminal_complete h' hus hp hc) hterm).bind fun rest hrest => ?_
    refine (attributeLists_complete hl hrest ?_).bind fun rest hrest => .ok hrest
    intro hb
    exact hf (by simp [extendsClause, hb])

theorem terminals_complete {zs ys : List Lexeme} {first : Terminal} {others : List Terminal}
    {ts : List Token} : IsTerminals zs others → Leaves (Parser.terminal ts) first (zs ++ ys) →
      ¬extendsTerminal ys → Leaves (Parser.terminals ts) (first, others) ys
  | .nil, h, hf => terminals_of_last h hf
  | .cons ho h' hs, h, hf => by
    obtain ⟨hp, hc⟩ := hs.front hf
    simp only [List.append_assoc, List.cons_append] at h
    exact terminals_of_more h ho fun us hus =>
      terminals_complete hs (terminal_complete h' hus hp hc) hf

theorem terminal_complete {xs ys : List Lexeme} {terminal : Terminal} {ts : List Token} :
    IsTerminal xs terminal → lexemes ts = xs ++ ys → frontSymbol? ys ≠ some .plus →
      frontSymbol? ys ≠ some .colon → Leaves (Parser.terminal ts) terminal ys
  | .node h h', hts, hp, hc => by
    rw [List.append_assoc] at hts
    exact nodeTerminal_complete h h' hts hp hc
  | .block h, hts, _, _ => blockTerminal_complete h hts

theorem blockTerminal_complete {xs ys : List Lexeme} {block : Block} {ts : List Token} :
    IsBlock xs block → lexemes ts = xs ++ ys → Leaves (Parser.terminal ts) (.block block) ys
  | .bare h, hts => by
    apply block_complete (.inl ⟨rfl, rfl⟩) (fun us hus => clauses_complete h hus)
    simpa using hts
  | .subgraph hx hn h, hts => by
    apply block_complete (.inr ⟨_, _, rfl, hx, hn⟩) (fun us hus => clauses_complete h hus)
    simpa using hts

end

lemma graphKind_complete {x : Lexeme} {kind : GraphKind} {ts : List Token} {ys : List Lexeme}
    (hx : x.keyword? = some kind.keyword) (hts : lexemes ts = x :: ys) :
    Leaves (Parser.graphKind ts) kind ys := by
  have hk : Parser.keyword? ts = some kind.keyword := by rw [keyword?_eq, hts]; exact hx
  unfold Parser.graphKind
  rw [hk]
  cases kind <;> exact .ok (lexemes_tail hts)

lemma strict_complete {x : Lexeme} {kind : GraphKind} {ss ys : List Lexeme} {strict : Bool}
    (hs : IsStrict ss strict) (hx : x.keyword? = some kind.keyword) {ts : List Token}
    (hts : lexemes ts = ss ++ x :: ys) :
    (Parser.keyword? ts = some .strict ↔ strict = true) ∧
      lexemes (if Parser.keyword? ts = some .strict then ts.tail else ts) = x :: ys := by
  cases hs with
  | absent =>
    have hne : Parser.keyword? ts ≠ some .strict := by
      rw [keyword?_eq, hts]
      simp only [List.nil_append, frontKeyword?, hx]
      cases kind <;> simp [GraphKind.keyword]
    simp only [hne, if_false]
    exact ⟨by simp, hts⟩
  | present hk =>
    have hstrict : Parser.keyword? ts = some .strict := by
      rw [keyword?_eq, hts]
      exact hk
    simp only [hstrict, if_true]
    exact ⟨by simp, lexemes_tail hts⟩

theorem declaration_complete {xs ys : List Lexeme} {d : Declaration} (h : IsDeclaration xs d)
    {ts : List Token} (hts : lexemes ts = xs ++ ys) : Leaves (Parser.declaration ts) d ys := by
  obtain ⟨hs, hx, hn, hb⟩ := h
  simp only [List.append_assoc, List.cons_append, List.nil_append] at hts
  obtain ⟨hstrict, hrest⟩ := strict_complete hs hx hts
  unfold Parser.declaration
  apply (graphKind_complete hx hrest).bind
  intro ts₁ hts₁
  apply (optionalName_complete hn hts₁).bind
  intro ts₂ hts₂
  obtain ⟨ts₃, hts₃, hbrace⟩ := expect_complete hts₂ .openBrace
  dsimp only
  rw [hbrace]
  refine (clauses_complete hb hts₃).bind fun ts₄ hts₄ => ⟨ts₄, hts₄, ?_⟩
  simp only [hstrict, Bool.decide_eq_true]

lemma IsDeclaration.front {xs : List Lexeme} {d : Declaration} (h : IsDeclaration xs d)
    (ys : List Lexeme) : xs ≠ [] ∧ frontSymbol? (xs ++ ys) = none := by
  obtain ⟨hs, hx, -, -⟩ := h
  cases hs with
  | absent => exact ⟨by simp, frontSymbol?_of_keyword? hx _⟩
  | present hk => exact ⟨by simp, frontSymbol?_of_keyword? hk _⟩

lemma declarations_of_front {ts : List Token} (hne : ts ≠ [])
    (hf : frontSymbol? (lexemes ts) = none) :
    Parser.declarations ts = (Parser.declaration ts >>= fun r =>
      Parser.declarations r.2 >>= fun ds => .ok (r.1 :: ds)) := by
  conv_lhs => rw [Parser.declarations.eq_def]
  split
  · exact absurd rfl hne
  · simp [lexemes, frontSymbol?] at hf
  · split
    · rename_i h
      rw [h]
      rfl
    · rename_i rest h
      rw [h]
      simp only [bind, Except.bind]
      cases Parser.declarations rest <;> rfl

theorem declarations_complete {xs : List Lexeme} {ds : List Declaration}
    (h : IsDeclarations xs ds) {ts : List Token} (hts : lexemes ts = xs) :
    Parser.declarations ts = .ok ds := by
  induction h generalizing ts with
  | nil =>
    obtain rfl : ts = [] := List.map_eq_nil_iff.1 hts
    rw [Parser.declarations]
  | semicolon h ih =>
    obtain ⟨p, us, rfl, hus⟩ := exists_of_lexemes_cons hts
    rw [Parser.declarations]
    exact ih hus
  | @cons xs ys d ds h h' ih =>
    obtain ⟨hne, hfront⟩ := h.front ys
    obtain ⟨rest, hrest, hok⟩ := declaration_complete h hts
    have hts' : ts ≠ [] := by
      rintro rfl
      simp [lexemes, hne] at hts
    rw [declarations_of_front hts' (by rw [hts]; exact hfront), hok]
    simp [bind, Except.bind, ih hrest]

/-- The reader of documents accepts what the grammar derives, with the tree of the derivation. -/
theorem document_iff (ts : List Token) (document : Document) :
    Parser.document ts = .ok document ↔ IsDocument (lexemes ts) document := by
  refine ⟨document_sound, fun h => ?_⟩
  have hds := declarations_complete h.1 rfl
  unfold Parser.document
  rw [hds]
  split
  · rename_i heq
    cases heq
    exact absurd rfl h.2
  · rfl

lemma ofTokens_eq_ok_iff {tokens : Tokens} {document : Document} :
    Document.ofTokens tokens = .ok document ↔ IsDocument (lexemes tokens.list) document := by
  rw [← document_iff, Document.ofTokens]
  cases Parser.document tokens.list <;> simp [Except.mapError]

lemma ofString_eq_ok_iff {source : String} {document : Document} :
    Document.ofString source = .ok document ↔ ∃ tokens, Tokens.ofString source = .ok tokens ∧
      IsDocument (lexemes tokens.list) document := by
  rw [Document.ofString]
  cases Tokens.ofString source with
  | error e => simp [Except.bind]
  | ok tokens => simp [Except.bind, ofTokens_eq_ok_iff]

/-- A source whose lexemes derive a document spells that document. -/
lemma ofString_of_lexemes {source : String} {xs : List Lexeme} {document : Document}
    (h : (Tokens.ofString source).map (fun tokens => lexemes tokens.list) = .ok xs)
    (hd : IsDocument xs document) : Document.ofString source = .ok document := by
  cases ht : Tokens.ofString source with
  | error e =>
    rw [ht] at h
    cases h
  | ok tokens =>
    rw [ht] at h
    cases h
    exact ofString_eq_ok_iff.2 ⟨tokens, ht, hd⟩

/-- Tokens are accepted if and only if their lexemes derive from the grammar. The end of the list
is the end of the input, and quoted texts are literals, from a quote to a quote, as the scanner
finds them. -/
theorem ofTokens_accepts_iff (tokens : Tokens) :
    (∃ document, Document.ofTokens tokens = .ok document) ↔
      ∃ document, IsDocument (lexemes tokens.list) document := by
  simp only [ofTokens_eq_ok_iff]

end DotGraph.Grammar
