import DotGraph.Proofs.GrammarComplete
import DotGraph.Proofs.IndexedReading

/-!
# Graphs built by index

The parser by index builds the graphs of a source in one pass. Its readers of statements do at once
what the readers of clauses and the pass over the clauses do one after the other, so the parser
ends on every source, as the reader does, and accepts what the grammar derives.
-/

namespace DotGraph

open Attempt

/-! ### Chains of terminals -/

namespace Parser

variable {ts rest : List Token}

/-- A block with its head. -/
def block (ts : List Token) : Except Refusal (Block × List Token) := do
  let (name, rest) ← blockHead ts
  let (body, left) ← clauses rest
  .ok (⟨name, body⟩, left)

/-- The terminals behind the first one of a chain. -/
def moreTerminals (ts : List Token) : Except Refusal (List Terminal × List Token) :=
  if atEdgeOperator ts then do
    let ((second, others), rest) ← terminals ts.tail
    .ok (second :: others, rest)
  else .ok ([], ts)

/-- The clause that starts with the given terminal. -/
def afterTerminal (first : Terminal) (ts : List Token) : Except Refusal (Clause × List Token) := do
  let (others, rest) ← moreTerminals ts
  afterTerminals first others rest

lemma terminal_eq_block (ts : List Token) :
    terminal ts = if atBlock ts then mapValue .block (block ts) else nodeTerminal ts := by
  rw [terminal_eq, block, mapValue_bind]
  congr 1
  cases blockHead ts with
  | error r => rfl
  | ok r =>
    obtain ⟨name, rest⟩ := r
    dsimp only [bind, Except.bind]
    cases clauses rest <;> rfl

lemma terminals_eq_more (ts : List Token) : terminals ts = (do
    let (first, rest) ← terminal ts
    let (others, left) ← moreTerminals rest
    .ok ((first, others), left)) := by
  rw [terminals_eq]
  congr 1
  funext r
  obtain ⟨first, rest⟩ := r
  dsimp only
  rw [moreTerminals]
  split_ifs
  · rw [bind_assoc]
    rfl
  · rfl

lemma clauseOfTerminals_eq (ts : List Token) : (do
    let ((first, others), rest) ← terminals ts
    afterTerminals first others rest) = (do
      let (first, rest) ← terminal ts
      afterTerminal first rest) := by
  rw [terminals_eq_more, bind_assoc]
  congr 1
  funext r
  obtain ⟨first, rest⟩ := r
  dsimp only
  rw [bind_assoc, afterTerminal]
  rfl

lemma afterTerminal_of_not (first : Terminal) (h : ¬ atEdgeOperator ts = true) :
    afterTerminal first ts = afterTerminals first [] ts := by
  rw [afterTerminal, moreTerminals, if_neg h]
  rfl

lemma exists_cons_of_moreTerminals {others : List Terminal} (hmore : atEdgeOperator ts = true)
    (h : moreTerminals ts = .ok (others, rest)) : ∃ second more, others = second :: more := by
  rw [moreTerminals, if_pos hmore] at h
  obtain ⟨⟨⟨second, more⟩, left⟩, -, h⟩ := bind_eq_ok.1 h
  cases h
  exact ⟨second, more, rfl⟩

lemma eq_of_anchor_eq_none (h : anchor ts = .ok (none, rest)) : rest = ts := by
  unfold anchor at h
  split at h
  · obtain ⟨⟨field, left⟩, -, h⟩ := bind_eq_ok.1 h
    dsimp only at h
    split at h
    · obtain ⟨⟨compass, last⟩, -, h⟩ := bind_eq_ok.1 h
      cases h
    · cases h
  · cases h
    rfl

lemma block_endsIn (ts : List Token) : EndsIn ts (block ts) := by
  apply (blockHead_endsIn ts).bind
  intro name rest _
  apply (clauses_endsIn rest).bind
  intro body left _
  exact List.suffix_rfl

lemma block_length {b : Block} (h : block ts = .ok (b, rest)) : rest.length < ts.length := by
  obtain ⟨⟨name, ts₁⟩, h₁, h⟩ := bind_eq_ok.1 h
  obtain ⟨⟨body, ts₂⟩, h₂, h⟩ := bind_eq_ok.1 h
  cases h
  exact Nat.lt_trans (clauses_length h₂) (blockHead_length h₁)

lemma moreTerminals_endsIn (ts : List Token) : EndsIn ts (moreTerminals ts) := by
  unfold moreTerminals
  split
  · apply (terminals_endsIn ts.tail).tail.bind
    intro chain rest _
    exact List.suffix_rfl
  · exact List.suffix_rfl

end Parser

namespace IndexedParser

/-! ### Statements -/

section Rules

variable {tokens : Tokens} {ts rest : List Token} (rules : Rules) (scope : Scope) (g : Subgraph)

/-- A statement of a keyword and lists, where `after` is what its clause makes of the lists. -/
lemma keywordStatement_eq (hwords : tokens.HasLiterals) (hts : ts <:+ tokens.list)
    (make : List Item → Clause) (after : Attributes → Scope × Subgraph)
    (hafter : ∀ items, (make items).apply rules scope g = after (.ofItems items)) : (do
      let (attributes, i) ← requiredLists tokens.marks (tokens.indexOf ts)
      return (after attributes, i) : Attempt ((Scope × Subgraph) × Nat)) = tokens.ofReading
        (Parser.mapValue (Clause.apply rules scope g) (Parser.listClause make ts.tail)) := by
  rw [requiredLists_eq hwords hts, Parser.listClause]
  cases Parser.requiredLists ts.tail with
  | error r => rfl
  | ok r =>
    exact congrArg (fun state => (pure (state, tokens.indexOf r.2) : Attempt _)) (hafter r.1).symm

lemma untilBrace_semicolon {p : Position} (hts : ⟨.symbol .semicolon, p⟩ :: ts <:+ tokens.list) :
    untilBrace tokens.marks rules (scope, g) (tokens.indexOf (⟨.symbol .semicolon, p⟩ :: ts)) =
      untilBrace tokens.marks rules (scope, g) (tokens.indexOf ts) := by
  rw [untilBrace, run_eq, statements, run_eq, statementsTurn, markAt_eq hts, bump_eq hts,
    untilBrace]
  rfl

lemma untilBrace_statement {token : Token} (hts : token :: ts <:+ tokens.list)
    (hclose : ∀ p, token ≠ ⟨.symbol .closeBrace, p⟩)
    (hsemicolon : ∀ p, token ≠ ⟨.symbol .semicolon, p⟩) :
    untilBrace tokens.marks rules (scope, g) (tokens.indexOf (token :: ts)) = (do
      let (state, i) ← statement tokens.marks rules (scope, g) (tokens.indexOf (token :: ts))
      untilBrace tokens.marks rules state i) := by
  rw [untilBrace, run_eq, statements, run_eq, statementsTurn, markAt_eq hts]
  simp only [pure_bind, untilBrace]
  obtain ⟨lexeme, p⟩ := token
  cases lexeme with
  | word kind text => simp only [Tokens.front, bind_assoc, pure_bind, run_eq]
  | symbol s =>
    cases s
    case closeBrace => exact absurd rfl (hclose p)
    case semicolon => exact absurd rfl (hsemicolon p)
    all_goals simp only [Tokens.front, bind_assoc, pure_bind, run_eq]

mutual

theorem untilBrace_eq (hwords : tokens.HasLiterals) : (ts : List Token) → ts <:+ tokens.list →
    (scope : Scope) → (g : Subgraph) →
    untilBrace tokens.marks rules (scope, g) (tokens.indexOf ts) =
      tokens.ofReading (Parser.mapValue (Clause.applyAll rules scope g) (Parser.clauses ts))
  | [], hts, scope, g => by
    rw [untilBrace, run_eq, statements, run_eq, statementsTurn, markAt_eq hts, Parser.clauses_eq]
    simp only [pure_bind, Tokens.front, unexpected_eq _ hts]
    rfl
  | token :: ts, hts, scope, g => by
    have hrest := (List.suffix_cons _ _).trans hts
    have hstatement (hclose : ∀ p, token ≠ ⟨.symbol .closeBrace, p⟩)
        (hsemicolon : ∀ p, token ≠ ⟨.symbol .semicolon, p⟩) :
        untilBrace tokens.marks rules (scope, g) (tokens.indexOf (token :: ts)) =
          tokens.ofReading (Parser.mapValue (Clause.applyAll rules scope g) (do
            let (first, unread) ← Parser.clause (token :: ts)
            let (others, left) ← Parser.clauses unread
            .ok (first :: others, left))) := by
      rw [untilBrace_statement rules scope g hts hclose hsemicolon,
        statement_eq hwords (token :: ts) hts scope g, Parser.mapValue_bind]
      apply ofReading_mapValue_bind hts (Parser.clause_endsIn _)
      intro clause rest hclause hrest
      have := Parser.clause_length hclause
      dsimp only
      rw [untilBrace_eq hwords rest hrest]
      cases Parser.clauses rest <;> rfl
    obtain ⟨lexeme, p⟩ := token
    rw [Parser.clauses_eq]
    cases lexeme with
    | word kind text => exact hstatement (by rintro _ ⟨⟩) (by rintro _ ⟨⟩)
    | symbol s =>
      cases s
      case closeBrace =>
        rw [untilBrace, run_eq, statements, run_eq, statementsTurn, markAt_eq hts]
        simp only [pure_bind, Tokens.front]
        rw [expect, eat_eq _ hts]
        rfl
      case semicolon =>
        rw [untilBrace_semicolon rules scope g hts]
        exact untilBrace_eq hwords ts hrest scope g
      all_goals exact hstatement (by rintro _ ⟨⟩) (by rintro _ ⟨⟩)
termination_by ts => (ts.length, 4)

theorem statement_eq (hwords : tokens.HasLiterals) (ts : List Token)
    (hts : ts <:+ tokens.list) (scope : Scope) (g : Subgraph) :
    statement tokens.marks rules (scope, g) (tokens.indexOf ts) =
      tokens.ofReading (Parser.mapValue (Clause.apply rules scope g) (Parser.clause ts)) := by
  have hother : (do
      if ← atBlock tokens.marks (tokens.indexOf ts) then
        blockStatement tokens.marks rules (scope, g) (tokens.indexOf ts)
      else nodeStatement tokens.marks rules (scope, g) (tokens.indexOf ts) : Attempt _) =
      tokens.ofReading (Parser.mapValue (Clause.apply rules scope g) (do
        let ((first, others), rest) ← Parser.terminals ts
        Parser.afterTerminals first others rest)) := by
    rw [atBlock_eq hts, pure_bind, Parser.clauseOfTerminals_eq, Parser.terminal_eq_block]
    split_ifs
    · exact blockStatement_eq hwords ts hts scope g
    · exact nodeStatement_eq hwords ts hts scope g
  rw [statement, markAt_eq hts, pure_bind, Tokens.front_keyword?, Parser.clause_eq]
  cases Parser.keyword? ts with
  | none => exact hother
  | some k =>
    cases k
    case node =>
      exact keywordStatement_eq rules scope g hwords hts (.defaults .node)
        (fun attributes => (scope.extend .node attributes, g.addDefaults ⟨.node, attributes⟩))
        fun _ => rfl
    case edge =>
      exact keywordStatement_eq rules scope g hwords hts (.defaults .edge)
        (fun attributes => (scope.extend .edge attributes, g.addDefaults ⟨.edge, attributes⟩))
        fun _ => rfl
    case graph =>
      exact keywordStatement_eq rules scope g hwords hts .graph
        (fun attributes => (scope, { g with attributes := g.attributes.merge attributes }))
        fun _ => rfl
    all_goals exact hother
termination_by (ts.length, 3)

theorem blockStatement_eq (hwords : tokens.HasLiterals) (ts : List Token)
    (hts : ts <:+ tokens.list) (scope : Scope) (g : Subgraph) :
    blockStatement tokens.marks rules (scope, g) (tokens.indexOf ts) =
      tokens.ofReading (Parser.mapValue (Clause.apply rules scope g) (do
        let (first, rest) ← Parser.mapValue .block (Parser.block ts)
        Parser.afterTerminal first rest)) := by
  rw [blockStatement, run_eq, subgraph_eq hwords ts hts scope, Parser.mapValue_bind,
    Parser.bind_of_mapValue]
  apply ofReading_mapValue_bind hts (Parser.block_endsIn ts)
  intro block rest hblock hrest
  have := Parser.block_length hblock
  dsimp only
  rw [atEdgeOperator_eq hrest, pure_bind]
  split_ifs with hmore
  · exact edgeChain_eq hwords rest hrest scope g (.block block) hmore
  · rw [Parser.afterTerminal_of_not _ hmore]
    rfl
termination_by (ts.length, 2)

theorem nodeStatement_eq (hwords : tokens.HasLiterals) (ts : List Token)
    (hts : ts <:+ tokens.list) (scope : Scope) (g : Subgraph) :
    nodeStatement tokens.marks rules (scope, g) (tokens.indexOf ts) =
      tokens.ofReading (Parser.mapValue (Clause.apply rules scope g) (do
        let (first, rest) ← Parser.nodeTerminal ts
        Parser.afterTerminal first rest)) := by
  rw [nodeStatement, ident_eq hwords hts, Parser.nodeTerminal, bind_assoc, Parser.mapValue_bind]
  apply ofReading_bind hts (Parser.ident_endsIn ts)
  intro name rest hname hrest
  have := Parser.ident_length hname
  dsimp only
  rw [bind_assoc]
  apply eat_bind hrest
  · intro hequals htail
    have hanchor : Parser.anchor rest = .ok (none, rest) := by
      rw [Parser.anchor, if_neg (by rw [hequals]; decide)]
    have hmore : ¬ Parser.atEdgeOperator rest = true := by
      simp [Parser.atEdgeOperator, hequals]
    rw [hanchor]
    change _ = tokens.ofReading (Parser.mapValue (Clause.apply rules scope g)
      (Parser.afterTerminal (.node name none) rest))
    dsimp only
    rw [if_pos rfl, ident_eq hwords htail, Parser.afterTerminal_of_not _ hmore,
      Parser.afterTerminals, if_pos (by simp [hequals]), Parser.mapValue_bind]
    apply ofReading_bind htail (Parser.ident_endsIn rest.tail)
    intro value left _ _
    rfl
  · intro hequals
    dsimp only
    rw [if_neg Bool.false_ne_true, anchor_eq hwords hrest, Parser.mapValue_bind]
    apply ofReading_bind hrest (Parser.anchor_endsIn rest)
    intro anchor left hanchor hleft
    have := Parser.anchor_length hanchor
    have hassign : ¬ (anchor.isNone && Parser.symbol? left = some .equals) = true := by
      cases anchor with
      | none =>
        rw [Parser.eq_of_anchor_eq_none hanchor]
        simpa using hequals
      | some anchor => simp
    change _ = tokens.ofReading (Parser.mapValue (Clause.apply rules scope g)
      (Parser.afterTerminal (.node name anchor) left))
    dsimp only
    rw [atEdgeOperator_eq hleft, pure_bind]
    split_ifs with hmore
    · exact edgeChain_eq hwords left hleft scope g (.node name anchor) hmore
    · rw [Parser.afterTerminal_of_not _ hmore, Parser.afterTerminals, if_neg hassign,
        attributeLists_eq hwords hleft]
      cases Parser.attributeLists left <;> rfl
termination_by (ts.length, 2)

theorem edgeChain_eq (hwords : tokens.HasLiterals) (ts : List Token)
    (hts : ts <:+ tokens.list) (scope : Scope) (g : Subgraph) (first : Terminal)
    (hmore : Parser.atEdgeOperator ts = true) :
    edgeChain tokens.marks rules ((scope, g), first.endpoint rules scope) (tokens.indexOf ts) =
      tokens.ofReading
        (Parser.mapValue (Clause.apply rules scope g) (Parser.afterTerminal first ts)) := by
  rw [edgeChain, run_eq, chain_eq hwords ts hts scope, Parser.afterTerminal, Parser.mapValue_bind]
  apply ofReading_mapValue_bind hts (Parser.moreTerminals_endsIn ts)
  intro others rest hothers hrest
  obtain ⟨second, more, rfl⟩ := Parser.exists_cons_of_moreTerminals hmore hothers
  dsimp only
  rw [attributeLists_eq hwords hrest, Parser.afterTerminals]
  cases Parser.attributeLists rest <;> rfl
termination_by (ts.length, 2)

theorem chain_eq (hwords : tokens.HasLiterals) (ts : List Token)
    (hts : ts <:+ tokens.list) (scope : Scope) (endpoints : List Endpoint) :
    chain tokens.marks rules (scope, endpoints) (tokens.indexOf ts) =
      tokens.ofReading (Parser.mapValue (endpoints ++ Terminal.endpoints rules scope ·)
        (Parser.moreTerminals ts)) := by
  rw [chain, run_eq, chainTurn, atEdgeOperator_eq hts, pure_bind, bump_eq hts, Parser.moreTerminals]
  split_ifs with hmore
  · have htail := (List.tail_suffix ts).trans hts
    have := Parser.tail_length_of_atEdgeOperator hmore
    rw [pure_bind, run_eq, endpoint_eq hwords ts.tail htail scope, bind_assoc,
      Parser.terminals_eq_more, bind_assoc, Parser.mapValue_bind]
    apply ofReading_mapValue_bind htail (Parser.terminal_endsIn ts.tail)
    intro terminal rest hterminal hrest
    have := Parser.terminal_length hterminal
    dsimp only
    rw [pure_bind]
    dsimp only
    rw [run_eq, chain_eq hwords rest hrest scope]
    cases Parser.moreTerminals rest with
    | error r => rfl
    | ok r =>
      simp [Parser.mapValue, Tokens.ofReading, Terminal.endpoints, bind, Except.bind]
  · simp [Tokens.ofReading, Terminal.endpoints, Parser.mapValue]
termination_by (ts.length, 1)

theorem endpoint_eq (hwords : tokens.HasLiterals) (ts : List Token)
    (hts : ts <:+ tokens.list) (scope : Scope) :
    endpoint tokens.marks rules scope (tokens.indexOf ts) =
      tokens.ofReading (Parser.mapValue (Terminal.endpoint rules scope) (Parser.terminal ts)) := by
  rw [endpoint, atBlock_eq hts, pure_bind, Parser.terminal_eq_block]
  split_ifs
  · rw [run_eq, subgraph_eq hwords ts hts scope, Parser.mapValue_mapValue]
    cases Parser.block ts <;> rfl
  · rw [ident_eq hwords hts, Parser.nodeTerminal, Parser.mapValue_bind]
    apply ofReading_bind hts (Parser.ident_endsIn ts)
    intro name rest _ hrest
    dsimp only
    rw [anchor_eq hwords hrest, Parser.mapValue_bind]
    apply ofReading_bind hrest (Parser.anchor_endsIn rest)
    intro anchor left _ _
    rfl
termination_by (ts.length, 1)

theorem subgraph_eq (hwords : tokens.HasLiterals) (ts : List Token)
    (hts : ts <:+ tokens.list) (scope : Scope) :
    subgraph tokens.marks rules scope (tokens.indexOf ts) =
      tokens.ofReading (Parser.mapValue (Block.subgraph rules scope) (Parser.block ts)) := by
  rw [subgraph, blockName_eq hwords hts, Parser.block, Parser.blockHead, bind_assoc,
    Parser.mapValue_bind]
  apply ofReading_bind hts (Parser.blockName_endsIn ts)
  intro name rest hname hrest
  have hlength : rest.length ≤ ts.length := by
    have hends := Parser.blockName_endsIn ts
    rw [hname] at hends
    exact List.IsSuffix.length_le hends
  dsimp only
  rw [bind_assoc, Parser.mapValue_bind]
  apply expect_bind _ _ hrest
  intro hopen htail
  have := Parser.length_tail_lt hopen
  rw [run_eq, untilBrace_eq hwords rest.tail htail scope (.empty name)]
  dsimp only [bind, Except.bind]
  cases Parser.clauses rest.tail <;> rfl
termination_by (ts.length, 0)

end

end Rules

/-! ### Documents -/

section Documents

variable {tokens : Tokens} {ts : List Token} (reader : Reader)

lemma graphKind_eq (hts : ts <:+ tokens.list) :
    graphKind tokens.marks (tokens.indexOf ts) = tokens.ofReading (Parser.graphKind ts) := by
  rw [graphKind, markAt_eq hts, pure_bind, Tokens.front_keyword?, bump_eq hts, Parser.graphKind]
  cases Parser.keyword? ts with
  | none => exact unexpected_eq _ hts
  | some k =>
    cases k
    case graph => rfl
    case digraph => rfl
    all_goals exact unexpected_eq _ hts

lemma block_eq (hwords : tokens.HasLiterals) (hts : ts <:+ tokens.list) :
    block tokens.marks reader (tokens.indexOf ts) =
      tokens.ofReading (Parser.mapValue (Declaration.toGraph reader.inheritDefaults)
        (Parser.declaration ts)) := by
  have hstrict : strictness tokens.marks (tokens.indexOf ts) =
      pure (decide (Parser.keyword? ts = some .strict),
        tokens.indexOf (if Parser.keyword? ts = some .strict then ts.tail else ts)) := by
    rw [strictness, markAt_eq hts, pure_bind, Tokens.front_keyword?, bump_eq hts]
    split_ifs with hk
    · rw [decide_eq_true hk]
      rfl
    · rw [decide_eq_false hk]
  have hrest : (if Parser.keyword? ts = some .strict then ts.tail else ts) <:+ tokens.list := by
    split_ifs
    · exact (List.tail_suffix ts).trans hts
    · exact hts
  rw [block, hstrict, pure_bind]
  dsimp only
  rw [graphKind_eq hrest, Parser.declaration, Parser.mapValue_bind]
  apply ofReading_bind hrest (Parser.graphKind_endsIn _)
  intro kind rest _ hrest
  dsimp only
  rw [optionalName_eq hwords hrest, Parser.mapValue_bind]
  apply ofReading_bind hrest (Parser.optionalName_endsIn rest)
  intro name rest _ hrest
  dsimp only
  rw [Parser.mapValue_bind]
  apply expect_bind _ _ hrest
  intro _ htail
  rw [untilBrace_eq _ hwords rest.tail htail]
  cases Parser.clauses rest.tail <;> rfl

lemma semicolonTurn_eq (hts : ts <:+ tokens.list) :
    semicolonTurn tokens.marks () (tokens.indexOf ts) =
      pure (if Parser.symbol? ts = some .semicolon then (.again (), tokens.indexOf ts.tail)
        else (.done (), tokens.indexOf ts)) := by
  rw [semicolonTurn, eat_eq _ hts, pure_bind]
  split_ifs <;> rfl

lemma blockTurn_semicolon {p : Position} (hts : ⟨.symbol .semicolon, p⟩ :: ts <:+ tokens.list)
    (graphs : List Graph) :
    blockTurn tokens.marks reader graphs (tokens.indexOf (⟨.symbol .semicolon, p⟩ :: ts)) =
      blockTurn tokens.marks reader graphs (tokens.indexOf ts) := by
  rw [blockTurn, loop, semicolonTurn_eq hts, blockTurn]
  rfl

/-- A turn of the loop over graphs reads one, unless the tokens are at their end. -/
lemma blockTurn_eq (hwords : tokens.HasLiterals) (hts : ts <:+ tokens.list)
    (hsemicolon : Parser.symbol? ts ≠ some .semicolon) (graphs : List Graph) :
    blockTurn tokens.marks reader graphs (tokens.indexOf ts) = tokens.ofReading (
      if ts = [] then .ok (.done graphs, [])
      else Parser.mapValue
        (fun d => .again (graphs ++ [Declaration.toGraph reader.inheritDefaults d]))
        (Parser.declaration ts)) := by
  rw [blockTurn, loop, semicolonTurn_eq hts, if_neg hsemicolon]
  simp only [pure_bind, markAt_eq hts]
  cases ts with
  | nil => rfl
  | cons token ts =>
    rw [block_eq reader hwords hts]
    cases Parser.declaration (token :: ts) <;> rfl

lemma graphs_eq (hwords : tokens.HasLiterals) (graphs : List Graph) (hts : ts <:+ tokens.list) :
    loop (blockTurn tokens.marks reader) graphs (tokens.indexOf ts) =
      tokens.ofReading
        ((Parser.declarations ts).map fun ds => (graphs ++ reader.graphs ds, [])) := by
  have hfront {token : Token} {rest : List Token}
      (h : ∀ p, token ≠ ⟨.symbol .semicolon, p⟩) :
      Parser.symbol? (token :: rest) ≠ some .semicolon := by
    intro hs
    obtain ⟨p, _, ⟨⟩⟩ := exists_of_symbol? hs
    exact h p rfl
  fun_induction Parser.declarations ts generalizing graphs with
  | case1 =>
    rw [loop, blockTurn_eq reader hwords hts (by rintro ⟨⟩), if_pos rfl]
    simp [Tokens.ofReading, Except.map, Reader.graphs]
  | case2 p rest ih =>
    rw [loop, blockTurn_semicolon reader hts, ← loop]
    exact ih graphs ((List.suffix_cons _ _).trans hts)
  | case3 token rest hsemicolon r hr =>
    rw [loop, blockTurn_eq reader hwords hts (hfront hsemicolon), if_neg (List.cons_ne_nil _ _),
      hr]
    rfl
  | case4 token rest hsemicolon first unread hfirst r hr ih
  | case5 token rest hsemicolon first unread hfirst others hr ih =>
    have hgo := ih (graphs ++ [first.toGraph reader.inheritDefaults])
      (suffix_of_ok hts (Parser.declaration_endsIn _) hfirst)
    rw [hr] at hgo
    rw [loop, blockTurn_eq reader hwords hts (hfront hsemicolon), if_neg (List.cons_ne_nil _ _),
      hfirst]
    refine hgo.trans ?_
    simp [Except.map, Reader.graphs]

lemma document_eq (hwords : tokens.HasLiterals) :
    document tokens.marks reader = .ofExcept (reader.graphs <$> Document.ofTokens tokens) := by
  have hstart : tokens.indexOf tokens.list = 0 := Nat.sub_self _
  have hgraphs := graphs_eq reader hwords [] (List.suffix_refl tokens.list)
  rw [hstart] at hgraphs
  rw [document, hgraphs, Document.ofTokens, Parser.document]
  cases Parser.declarations tokens.list with
  | error r => rfl
  | ok ds =>
    cases ds with
    | nil => exact unexpected_eq _ List.nil_suffix
    | cons d ds => rfl

/-- The parser by index accepts tokens whose quoted texts are literals if and only if their lexemes
derive a document, and what it reads are the graphs of that document. -/
theorem document_eq_pure_iff (hwords : tokens.HasLiterals) {graphs : List Graph} :
    document tokens.marks reader = pure graphs ↔
      ∃ d, Grammar.IsDocument (lexemes tokens.list) d ∧ reader.graphs d = graphs := by
  rw [document_eq reader hwords, ofExcept_eq_pure_iff]
  simp only [← Grammar.ofTokens_eq_ok_iff]
  cases Document.ofTokens tokens <;> simp

/-- It refuses all other such tokens, so that none of them make it trap. -/
theorem document_refuses_iff (hwords : tokens.HasLiterals) :
    (∃ e, document tokens.marks reader = refuse e) ↔
      ¬ ∃ d, Grammar.IsDocument (lexemes tokens.list) d := by
  simp only [document_eq reader hwords, ofExcept_eq_refuse_iff, ← Grammar.ofTokens_eq_ok_iff]
  cases Document.ofTokens tokens <;> simp

end Documents

end IndexedParser

/-- The scanner finds literals. -/
lemma hasLiterals_of_ofString {source : String} {tokens : Tokens}
    (h : Tokens.ofString source = .ok tokens) : tokens.HasLiterals :=
  fun _ _ htoken => Scan.isWord_of_tokensFrom h htoken rfl

/-- The parser by index reads what the reader makes of the document, or refuses the source as the
document does. -/
theorem IndexedParser.parse_eq (reader : Reader) (source : String) :
    parse reader source =
      .ofExcept ((fun d => Parsed.ofList (reader.graphs d)) <$> Document.ofString source) := by
  rw [parse, OffsetScan.tokenize_eq, Document.ofString]
  cases htokens : Tokens.ofString source with
  | error e => rfl
  | ok tokens =>
    have hdocument := document_eq reader (hasLiterals_of_ofString htokens)
    rw [Except.map_ok, ofExcept_ok, pure_bind, hdocument]
    change _ = ofExcept ((fun d => Parsed.ofList (reader.graphs d)) <$> Document.ofTokens tokens)
    cases Document.ofTokens tokens <;> rfl

end DotGraph
