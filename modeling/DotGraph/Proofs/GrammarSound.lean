import DotGraph.Proofs.Grammar

/-!
# What is read derives

Each reader takes lexemes from the front that spell the tree it returns, and leaves the others.
-/

namespace DotGraph

/-- The lexemes of tokens. -/
abbrev lexemes (ts : List Token) : List Lexeme := ts.map Token.lexeme

namespace Grammar

/-- Reading takes lexemes off the front that stand in the relation `D` to the tree. -/
def Takes (D : List Lexeme → α → Prop) (ts : List Token) (a : α) (rest : List Token) : Prop :=
  ∃ xs, lexemes ts = xs ++ lexemes rest ∧ D xs a

lemma lexemes_of_symbol? {ts : List Token} {s : Symbol} (h : Parser.symbol? ts = some s) :
    lexemes ts = .symbol s :: lexemes ts.tail := by
  unfold Parser.symbol? at h
  split at h
  · simp only [Option.some.injEq] at h
    simp [lexemes, h]
  · simp at h

lemma lexemes_of_keyword? {ts : List Token} {k : Keyword} (h : Parser.keyword? ts = some k) :
    ∃ x, x.keyword? = some k ∧ lexemes ts = x :: lexemes ts.tail := by
  cases ts with
  | nil => simp [Parser.keyword?] at h
  | cons t ts => exact ⟨t.lexeme, h, rfl⟩

theorem concatenation_sound {a : String} {ts rest : List Token} {x : Ident}
    (h : Parser.concatenation a ts = .ok (x, rest)) :
    Takes (IsConcatenation a) ts x.text rest := by
  fun_induction Parser.concatenation a ts with
  | case1 a b ts _ _ ih =>
    obtain ⟨xs, hxs, hx⟩ := ih h
    exact ⟨_, by simpa [lexemes] using hxs, .cons hx⟩
  | case2 => simp at h
  | case3 => cases h; exact ⟨[], rfl, .nil _⟩

theorem ident_sound {ts rest : List Token} {x : Ident} (h : Parser.ident ts = .ok (x, rest)) :
    Takes IsIdent ts x rest := by
  unfold Parser.ident at h
  split at h
  · split at h
    · simp at h
    · rename_i hk
      cases h
      exact ⟨_, rfl, .name (by simpa using hk)⟩
  · cases h; exact ⟨_, rfl, .numeral _⟩
  · cases h; exact ⟨_, rfl, .html _⟩
  · obtain ⟨xs, hxs, hx⟩ := concatenation_sound h
    exact ⟨_, by simp [lexemes] at hxs ⊢; exact hxs, .quoted hx⟩
  · simp at h

theorem anchor_sound {ts rest : List Token} {x : Option String}
    (h : Parser.anchor ts = .ok (x, rest)) : Takes IsAnchor ts x rest := by
  unfold Parser.anchor at h
  split at h
  · rename_i hc
    obtain ⟨⟨field, ts₁⟩, h₁, h⟩ := Parser.bind_eq_ok.1 h
    obtain ⟨xs, hxs, hx⟩ := ident_sound h₁
    dsimp only at h
    split at h
    · rename_i hc₁
      obtain ⟨⟨compass, ts₂⟩, h₂, h⟩ := Parser.bind_eq_ok.1 h
      obtain ⟨ys, hys, hy⟩ := ident_sound h₂
      cases h
      refine ⟨_, ?_, .compass hx hy⟩
      rw [lexemes_of_symbol? hc, hxs, lexemes_of_symbol? hc₁, hys]
      simp
    · cases h
      refine ⟨_, ?_, .field hx⟩
      rw [lexemes_of_symbol? hc, hxs]
      simp
  · cases h
    exact ⟨[], rfl, .none⟩

theorem item_sound {ts rest : List Token} {x : Item} (h : Parser.item ts = .ok (x, rest)) :
    Takes IsItem ts x rest := by
  unfold Parser.item at h
  obtain ⟨⟨name, ts₁⟩, h₁, h⟩ := Parser.bind_eq_ok.1 h
  obtain ⟨xs, hxs, hx⟩ := ident_sound h₁
  dsimp only at h
  split at h
  · rename_i he
    obtain ⟨⟨value, ts₂⟩, h₂, h⟩ := Parser.bind_eq_ok.1 h
    obtain ⟨ys, hys, hy⟩ := ident_sound h₂
    cases h
    refine ⟨_, ?_, .text hx hy⟩
    rw [hxs, lexemes_of_symbol? he, hys]
    simp
  · cases h
    exact ⟨xs, hxs, .implicit hx⟩

/-- The items behind an opening bracket: the rest of its list, then any number of lists. -/
inductive IsOpenLists : List Lexeme → List Item → Prop
  | intro {xs ys : List Lexeme} {items others : List Item} (h : IsItems xs items)
      (h' : IsLists ys others) : IsOpenLists (xs ++ .symbol .closeBracket :: ys) (items ++ others)

lemma IsOpenLists.lists {xs : List Lexeme} {items : List Item} (h : IsOpenLists xs items) :
    IsLists (.symbol .openBracket :: xs) items := by
  obtain ⟨h, h'⟩ := h
  exact .cons h h'

theorem items_sound {ts rest : List Token} {items : List Item}
    (h : Parser.items ts = .ok (items, rest)) : Takes IsOpenLists ts items rest := by
  fun_induction Parser.items ts generalizing items rest with
  | case1 => simp at h
  | case2 _ _ ts ih =>
    obtain ⟨xs, hxs, hx⟩ := ih h
    exact ⟨_, by simpa [lexemes] using hxs, .intro .nil hx.lists⟩
  | case3 => cases h; exact ⟨_, rfl, .intro .nil .nil⟩
  | case4 _ ts ih =>
    obtain ⟨_, hxs, hx, hy⟩ := ih h
    exact ⟨_, by simpa [lexemes] using hxs, .intro (.comma hx) hy⟩
  | case5 _ ts ih =>
    obtain ⟨_, hxs, hx, hy⟩ := ih h
    exact ⟨_, by simpa [lexemes] using hxs, .intro (.semicolon hx) hy⟩
  | case6 => simp at h
  | case7 => simp at h
  | case8 =>
    rename_i h₁ _ _ h₂ ih
    obtain ⟨xs, hxs, hx⟩ := item_sound h₁
    obtain ⟨_, hys, hy, hz⟩ := ih h₂
    cases h
    refine ⟨_, ?_, .intro (.cons hx hy) hz⟩
    rw [hxs, hys]
    simp

theorem attributeLists_sound {ts rest : List Token} {items : List Item}
    (h : Parser.attributeLists ts = .ok (items, rest)) : Takes IsLists ts items rest := by
  unfold Parser.attributeLists at h
  split at h
  · rename_i hb
    obtain ⟨xs, hxs, hx⟩ := items_sound h
    exact ⟨_, by rw [lexemes_of_symbol? hb, hxs, List.cons_append], hx.lists⟩
  · cases h
    exact ⟨[], rfl, .nil⟩

theorem requiredLists_sound {ts rest : List Token} {items : List Item}
    (h : Parser.requiredLists ts = .ok (items, rest)) :
    Takes (fun xs items => IsLists xs items ∧ xs ≠ []) ts items rest := by
  unfold Parser.requiredLists at h
  split at h
  · rename_i hb
    obtain ⟨xs, hxs, hx⟩ := items_sound h
    exact ⟨_, by rw [lexemes_of_symbol? hb, hxs, List.cons_append], hx.lists, by simp⟩
  · simp at h

theorem optionalName_sound {ts rest : List Token} {name : Option Ident}
    (h : Parser.optionalName ts = .ok (name, rest)) : Takes IsName ts name rest := by
  unfold Parser.optionalName at h
  split at h
  · cases h
    exact ⟨[], rfl, .none⟩
  · obtain ⟨⟨x, ts₁⟩, h₁, h⟩ := Parser.bind_eq_ok.1 h
    obtain ⟨xs, hxs, hx⟩ := ident_sound h₁
    cases h
    exact ⟨xs, hxs, .some hx⟩

lemma lexemes_of_expect {s : Symbol} {wanted : Wanted} {ts rest : List Token}
    (h : Parser.expect s wanted ts = .ok rest) : lexemes ts = .symbol s :: lexemes rest := by
  unfold Parser.expect at h
  split at h
  · rename_i hs
    cases h
    exact lexemes_of_symbol? hs
  · simp at h

lemma isEdgeOperator_of_atEdgeOperator {ts : List Token} (h : Parser.atEdgeOperator ts = true) :
    ∃ o, IsEdgeOperator o ∧ lexemes ts = o :: lexemes ts.tail := by
  simp only [Parser.atEdgeOperator, Bool.or_eq_true, decide_eq_true_eq] at h
  rcases h with h | h
  · exact ⟨_, .arrow, lexemes_of_symbol? h⟩
  · exact ⟨_, .line, lexemes_of_symbol? h⟩

theorem nodeTerminal_sound {ts rest : List Token} {x : Terminal}
    (h : Parser.nodeTerminal ts = .ok (x, rest)) : Takes IsTerminal ts x rest := by
  unfold Parser.nodeTerminal at h
  obtain ⟨⟨name, ts₁⟩, h₁, h⟩ := Parser.bind_eq_ok.1 h
  obtain ⟨⟨anchor, ts₂⟩, h₂, h⟩ := Parser.bind_eq_ok.1 h
  obtain ⟨xs, hxs, hx⟩ := ident_sound h₁
  obtain ⟨ys, hys, hy⟩ := anchor_sound h₂
  cases h
  exact ⟨_, by rw [hxs, hys, List.append_assoc], .node hx hy⟩

/-- The clauses behind an opening brace with the brace that closes them. -/
def IsOpenClauses (xs : List Lexeme) (clauses : List Clause) : Prop :=
  ∃ ys, xs = ys ++ [.symbol .closeBrace] ∧ IsClauses ys clauses

/-- A terminal and the further ones of its chain. -/
def IsChain (xs : List Lexeme) (chain : Terminal × List Terminal) : Prop :=
  ∃ ys zs, xs = ys ++ zs ∧ IsTerminal ys chain.1 ∧ IsTerminals zs chain.2

lemma blockHead_sound {ts rest : List Token} {name : Option Ident} {xs : List Lexeme}
    {clauses : List Clause} (h : Parser.blockHead ts = .ok (name, rest))
    (hx : IsOpenClauses xs clauses) :
    ∃ ys, lexemes ts ++ xs = ys ++ lexemes rest ++ xs ∧ IsBlock (ys ++ xs) ⟨name, clauses⟩ := by
  obtain ⟨zs, rfl, hz⟩ := hx
  unfold Parser.blockHead at h
  obtain ⟨⟨name, ts₁⟩, h₁, h⟩ := Parser.bind_eq_ok.1 h
  obtain ⟨ts₂, h₂, h⟩ := Parser.bind_eq_ok.1 h
  cases h
  have hbrace := lexemes_of_expect h₂
  unfold Parser.blockName at h₁
  split at h₁
  · rename_i hk
    obtain ⟨x, hx, hts⟩ := lexemes_of_keyword? hk
    obtain ⟨ns, hns, hn⟩ := optionalName_sound h₁
    refine ⟨x :: (ns ++ [.symbol .openBrace]), ?_, ?_⟩
    · rw [hts, hns, hbrace]
      simp
    · simpa using IsBlock.subgraph hx hn hz
  · cases h₁
    exact ⟨[.symbol .openBrace], by rw [hbrace]; simp, by simpa using IsBlock.bare hz⟩

lemma afterTerminals_sound {chain : Terminal × List Terminal} {xs : List Lexeme}
    {ts rest : List Token} {x : Clause} (hc : IsChain xs chain)
    (h : Parser.afterTerminals chain.1 chain.2 ts = .ok (x, rest)) :
    ∃ ys, lexemes ts = ys ++ lexemes rest ∧ IsClause (xs ++ ys) x := by
  obtain ⟨ys, zs, rfl, hy, hz⟩ := hc
  unfold Parser.afterTerminals at h
  split at h
  · rename_i second others heq
    obtain ⟨⟨items, ts₁⟩, h₁, h⟩ := Parser.bind_eq_ok.1 h
    obtain ⟨ws, hws, hw⟩ := attributeLists_sound h₁
    cases h
    rw [heq] at hz
    cases hz with
    | cons ho hs hr => exact ⟨ws, hws, by simpa using IsClause.edges hy ho hs hr hw⟩
  · rename_i block heq₁ heq
    cases h
    rw [heq] at hz
    rw [heq₁] at hy
    cases hz
    cases hy with
    | block hb => exact ⟨[], rfl, by simpa using IsClause.block hb⟩
  · rename_i name anchor heq₁ heq
    rw [heq] at hz
    rw [heq₁] at hy
    cases hz
    cases hy with
    | node hn ha =>
      split at h
      · rename_i hcond
        simp only [Bool.and_eq_true, Option.isNone_iff_eq_none, decide_eq_true_eq] at hcond
        obtain ⟨hnone, heq⟩ := hcond
        obtain ⟨⟨value, ts₁⟩, h₁, h⟩ := Parser.bind_eq_ok.1 h
        obtain ⟨vs, hvs, hv⟩ := ident_sound h₁
        cases h
        subst hnone
        cases ha
        refine ⟨.symbol .equals :: vs, ?_, by simpa using IsClause.assign hn hv⟩
        rw [lexemes_of_symbol? heq, hvs, List.cons_append]
      · obtain ⟨⟨items, ts₁⟩, h₁, h⟩ := Parser.bind_eq_ok.1 h
        obtain ⟨ws, hws, hw⟩ := attributeLists_sound h₁
        cases h
        exact ⟨ws, hws, by simpa using IsClause.node hn ha hw⟩

lemma listClause_sound {make : List Item → Clause} {ts rest : List Token} {x : Clause}
    (h : Parser.listClause make ts = .ok (x, rest)) :
    ∃ items, x = make items ∧
      Takes (fun xs items => IsLists xs items ∧ xs ≠ []) ts items rest := by
  obtain ⟨⟨items, ts₁⟩, h₁, h⟩ := Parser.bind_eq_ok.1 h
  cases h
  exact ⟨items, rfl, requiredLists_sound h₁⟩

mutual

theorem clauses_sound : ∀ {ts rest : List Token} {clauses : List Clause},
    Parser.clauses ts = .ok (clauses, rest) → Takes IsOpenClauses ts clauses rest
  | [], rest, clauses, h => by
    rw [Parser.clauses_eq] at h
    simp at h
  | t :: ts, rest, clauses, h => by
    rw [Parser.clauses_eq] at h
    split at h
    · simp at *
    · rename_i heq
      cases heq
      cases h
      exact ⟨[.symbol .closeBrace], rfl, [], rfl, .nil⟩
    · rename_i heq
      cases heq
      obtain ⟨_, hxs, ys, rfl, hy⟩ := clauses_sound h
      exact ⟨_, by simpa [lexemes] using hxs, .symbol .semicolon :: ys, rfl, .semicolon hy⟩
    · rename_i heq
      cases heq
      obtain ⟨⟨first, unread⟩, h₁, h⟩ := Parser.bind_eq_ok.1 h
      obtain ⟨⟨others, left⟩, h₂, h⟩ := Parser.bind_eq_ok.1 h
      have := Parser.clause_length h₁
      obtain ⟨xs, hxs, hx⟩ := clause_sound h₁
      obtain ⟨_, hys, ys, rfl, hy⟩ := clauses_sound h₂
      cases h
      refine ⟨xs ++ (ys ++ [.symbol .closeBrace]), ?_, xs ++ ys, by simp, .cons hx hy⟩
      rw [hxs, hys]
      simp
termination_by ts => (ts.length, 3)

theorem clause_sound {ts rest : List Token} {x : Clause}
    (h : Parser.clause ts = .ok (x, rest)) : Takes IsClause ts x rest := by
  rw [Parser.clause_eq] at h
  split at h
  · rename_i hk
    obtain ⟨k, hk, hts⟩ := lexemes_of_keyword? hk
    obtain ⟨items, rfl, xs, hxs, hx, hne⟩ := listClause_sound h
    exact ⟨k :: xs, by rw [hts, hxs, List.cons_append], .defaults hk hx hne⟩
  · rename_i hk
    obtain ⟨k, hk, hts⟩ := lexemes_of_keyword? hk
    obtain ⟨items, rfl, xs, hxs, hx, hne⟩ := listClause_sound h
    exact ⟨k :: xs, by rw [hts, hxs, List.cons_append], .defaults hk hx hne⟩
  · rename_i hk
    obtain ⟨k, hk, hts⟩ := lexemes_of_keyword? hk
    obtain ⟨items, rfl, xs, hxs, hx, hne⟩ := listClause_sound h
    exact ⟨k :: xs, by rw [hts, hxs, List.cons_append], .graph hk hx hne⟩
  · obtain ⟨⟨chain, ts₁⟩, h₁, h⟩ := Parser.bind_eq_ok.1 h
    obtain ⟨xs, hxs, hx⟩ := terminals_sound h₁
    obtain ⟨ys, hys, hy⟩ := afterTerminals_sound hx h
    exact ⟨_, by rw [hxs, hys, List.append_assoc], hy⟩
termination_by (ts.length, 2)

theorem terminals_sound {ts rest : List Token} {chain : Terminal × List Terminal}
    (h : Parser.terminals ts = .ok (chain, rest)) : Takes IsChain ts chain rest := by
  rw [Parser.terminals_eq] at h
  obtain ⟨⟨first, ts₁⟩, h₁, h⟩ := Parser.bind_eq_ok.1 h
  obtain ⟨xs, hxs, hx⟩ := terminal_sound h₁
  dsimp only at h
  split at h
  · rename_i hmore
    obtain ⟨⟨⟨second, others⟩, left⟩, h₂, h⟩ := Parser.bind_eq_ok.1 h
    have := Parser.terminal_length h₁
    have := Parser.tail_length_of_atEdgeOperator hmore
    obtain ⟨o, ho, hop⟩ := isEdgeOperator_of_atEdgeOperator hmore
    obtain ⟨_, hys, ys, zs, rfl, hy, hz⟩ := terminals_sound h₂
    cases h
    refine ⟨xs ++ o :: (ys ++ zs), ?_, xs, o :: (ys ++ zs), rfl, hx, .cons ho hy hz⟩
    rw [hxs, hop, hys]
    simp
  · cases h
    exact ⟨xs, hxs, xs, [], by simp, hx, .nil⟩
termination_by (ts.length, 1)

theorem terminal_sound {ts rest : List Token} {x : Terminal}
    (h : Parser.terminal ts = .ok (x, rest)) : Takes IsTerminal ts x rest := by
  rw [Parser.terminal_eq] at h
  split at h
  · obtain ⟨⟨name, ts₁⟩, h₁, h⟩ := Parser.bind_eq_ok.1 h
    obtain ⟨⟨body, left⟩, h₂, h⟩ := Parser.bind_eq_ok.1 h
    have := Parser.blockHead_length h₁
    obtain ⟨xs, hxs, hx⟩ := clauses_sound h₂
    obtain ⟨ys, hys, hy⟩ := blockHead_sound h₁ hx
    cases h
    refine ⟨ys ++ xs, ?_, .block hy⟩
    rw [List.append_cancel_right hys, hxs, List.append_assoc]
  · exact nodeTerminal_sound h
termination_by (ts.length, 0)

end

theorem graphKind_sound {ts rest : List Token} {kind : GraphKind}
    (h : Parser.graphKind ts = .ok (kind, rest)) :
    ∃ x, x.keyword? = some kind.keyword ∧ lexemes ts = x :: lexemes rest := by
  unfold Parser.graphKind at h
  split at h
  · rename_i hk
    cases h
    exact lexemes_of_keyword? hk
  · rename_i hk
    cases h
    exact lexemes_of_keyword? hk
  · simp at h

lemma isStrict_front (ts : List Token) :
    ∃ ss, IsStrict ss (Parser.keyword? ts = some .strict) ∧
      lexemes ts = ss ++ lexemes (if Parser.keyword? ts = some .strict then ts.tail else ts) := by
  by_cases h : Parser.keyword? ts = some .strict
  · obtain ⟨x, hx, hts⟩ := lexemes_of_keyword? h
    exact ⟨[x], by simpa [h] using IsStrict.present hx, by simpa [h] using hts⟩
  · exact ⟨[], by simpa [h] using IsStrict.absent, by simp [h]⟩

theorem declaration_sound {ts rest : List Token} {d : Declaration}
    (h : Parser.declaration ts = .ok (d, rest)) : Takes IsDeclaration ts d rest := by
  unfold Parser.declaration at h
  obtain ⟨⟨kind, ts₁⟩, h₁, h⟩ := Parser.bind_eq_ok.1 h
  obtain ⟨⟨name, ts₂⟩, h₂, h⟩ := Parser.bind_eq_ok.1 h
  obtain ⟨ts₃, h₃, h⟩ := Parser.bind_eq_ok.1 h
  obtain ⟨⟨body, ts₄⟩, h₄, h⟩ := Parser.bind_eq_ok.1 h
  obtain ⟨ss, hs, hts⟩ := isStrict_front ts
  obtain ⟨x, hx, hkind⟩ := graphKind_sound h₁
  obtain ⟨ns, hns, hn⟩ := optionalName_sound h₂
  have hbrace := lexemes_of_expect h₃
  obtain ⟨_, hbody, ys, rfl, hy⟩ := clauses_sound h₄
  cases h
  refine ⟨_, ?_, .intro hs hx hn hy⟩
  rw [hts, hkind, hns, hbrace, hbody]
  simp

theorem declarations_sound {ts : List Token} {ds : List Declaration}
    (h : Parser.declarations ts = .ok ds) : IsDeclarations (lexemes ts) ds := by
  fun_induction Parser.declarations ts generalizing ds with
  | case1 => cases h; exact .nil
  | case2 _ _ ih => exact .semicolon (ih h)
  | case3 => simp at h
  | case4 => simp at h
  | case5 =>
    rename_i h₁ _ h₂ ih
    obtain ⟨xs, hxs, hx⟩ := declaration_sound h₁
    cases h
    rw [hxs]
    exact .cons hx (ih h₂)

theorem document_sound {ts : List Token} {document : Document}
    (h : Parser.document ts = .ok document) : IsDocument (lexemes ts) document := by
  unfold Parser.document at h
  split at h
  · simp at h
  · rename_i hne
    exact ⟨declarations_sound h, fun hnil => hne (hnil ▸ h)⟩

end Grammar

end DotGraph
