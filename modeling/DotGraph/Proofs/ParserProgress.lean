import DotGraph.Proofs.IndexedGraphs

/-!
# Progress of the parser

No step of the scanner or the parser traps, and none is repeated for ever. A reader of the grammar
leaves at least one mark behind; a turn of a loop that is followed by another does too, so that the
loop takes fewer turns than there are marks.
-/

namespace DotGraph

open Attempt

/-- A text that starts with a quote and ends with another one. -/
structure IsDelimited (text : String) : Prop where
  length : 2 ≤ text.toList.length
  first : text.toList.head? = some '"'
  last : text.toList.getLast? = some '"'

lemma isDelimited_iff {text : String} :
    IsDelimited text ↔ ∃ body, text.toList = '"' :: (body ++ ['"']) := by
  constructor
  · rintro ⟨hlength, hfirst, hlast⟩
    obtain ⟨cs, htext⟩ := List.head?_eq_some_iff.1 hfirst
    obtain ⟨front, hfront⟩ := List.getLast?_eq_some_iff.1 hlast
    cases front with
    | nil =>
      rw [hfront] at hlength
      exact absurd hlength (by decide)
    | cons c body =>
      rw [htext, List.cons_append] at hfront
      obtain ⟨rfl, rfl⟩ := List.cons.inj hfront
      exact ⟨body, htext⟩
  · rintro ⟨body, htext⟩
    refine ⟨by simp [htext], by simp [htext], ?_⟩
    rw [htext, ← List.cons_append, List.getLast?_concat]

lemma isDelimited_of_isWord {text : String} (h : Scan.IsWord .quoted text) : IsDelimited text := by
  obtain ⟨body, -, htext⟩ := Scan.isWord_quoted_iff.1 h
  exact isDelimited_iff.2 ⟨body, htext⟩

/-- The quotes that meet fall away, and the outer ones stay. -/
lemma isDelimited_joinQuoted {a b : String} (ha : IsDelimited a) (hb : IsDelimited b) :
    IsDelimited (Parser.joinQuoted a b) := by
  obtain ⟨as, has⟩ := isDelimited_iff.1 ha
  obtain ⟨bs, hbs⟩ := isDelimited_iff.1 hb
  refine isDelimited_iff.2 ⟨as ++ bs, ?_⟩
  rw [Parser.joinQuoted, has, hbs, String.toList_ofList, ← List.cons_append,
    List.dropLast_concat]
  simp

namespace IndexedParser

variable {marks : List Mark}

/-- From every index of the list the reader ends, goes forward and stays in the list. -/
def Progresses (marks : List Mark) (read : Nat → Attempt (α × Nat)) : Prop :=
  ∀ i < marks.length, Ends (read i) fun r => i < r.2 ∧ r.2 < marks.length

/-- From every index of the list the reader ends, goes not back and stays in the list. -/
def Stays (marks : List Mark) (read : Nat → Attempt (α × Nat)) : Prop :=
  ∀ i < marks.length, Ends (read i) fun r => i ≤ r.2 ∧ r.2 < marks.length

/-- A turn that was taken from an index stays in the list. If another one follows, it went
forward, so it did not stand in front of the last mark. -/
def IsTurnFrom (marks : List Mark) (i : Nat) (r : Turn σ α × Nat) : Prop :=
  i ≤ r.2 ∧ r.2 < marks.length ∧ ∀ next, r.1 = .again next → i < r.2 ∧ i + 1 < marks.length

/-- From every index of the list a turn ends, and it goes forward or is the last one. -/
def TurnsProgress (marks : List Mark) (turn : σ → Nat → Attempt (Turn σ α × Nat)) : Prop :=
  ∀ state, ∀ i < marks.length, Ends (turn state i) (IsTurnFrom marks i)

/-- A loop ends if its turns progress: fewer marks are left for each turn. -/
theorem TurnsProgress.loop {turn : σ → Nat → Attempt (Turn σ α × Nat)}
    (h : TurnsProgress marks turn) (state : σ) : Stays marks (loop turn state) := by
  intro i hi
  induction hleft : marks.length - i using Nat.strongRecOn generalizing state i with
  | ind left ih =>
    rw [IndexedParser.loop]
    apply (h state i hi).bind
    rintro ⟨outcome, j⟩ ⟨hle, hj, hnext⟩
    cases outcome with
    | done result => exact ends_pure ⟨hle, hj⟩
    | again next =>
      have hlt := (hnext next rfl).1
      dsimp only at hlt hj
      refine (ih (marks.length - j) (by omega) next j hj rfl).mono ?_
      rintro r ⟨hr, hlength⟩
      exact ⟨Nat.le_trans (Nat.le_of_lt hlt) hr, hlength⟩

section Turn

variable {i j : Nat}

lemma isTurnFrom_done {result : α} (hij : i ≤ j) (hj : j < marks.length) :
    IsTurnFrom marks i ((.done result, j) : Turn σ α × Nat) :=
  ⟨hij, hj, by rintro _ ⟨⟩⟩

lemma isTurnFrom_again {state : σ} (hij : i < j) (hj : j < marks.length) :
    IsTurnFrom marks i ((.again state, j) : Turn σ α × Nat) :=
  ⟨Nat.le_of_lt hij, hj, fun _ _ => ⟨hij, Nat.lt_of_le_of_lt hij hj⟩⟩

end Turn

section Tokens

variable {tokens : Tokens} {i : Nat}

/-- Every mark but the last one is of a token and is left behind by `bump`. -/
lemma markAt_cases (hi : i < tokens.marks.length) :
    (∃ token ∈ tokens.list, markAt tokens.marks i = pure ⟨some token.lexeme, token.position⟩ ∧
      bump tokens.marks i = pure (i + 1) ∧ i + 1 < tokens.marks.length) ∨
    (markAt tokens.marks i = pure ⟨none, tokens.stop⟩ ∧ bump tokens.marks i = pure i ∧
      i + 1 = tokens.marks.length) := by
  obtain ⟨ts, hts, rfl⟩ := exists_indexOf_eq hi
  cases ts with
  | nil =>
    refine .inr ⟨markAt_eq hts, bump_eq hts, ?_⟩
    rw [Tokens.length_marks]
    rfl
  | cons token ts =>
    refine .inl ⟨token, hts.subset List.mem_cons_self, markAt_eq hts, ?_, ?_⟩
    · rw [bump_eq hts, indexOf_tail hts]
      rfl
    · rw [indexOf_tail hts]
      exact indexOf_lt ts

/-- A reader that does on marks what is done on tokens progresses if it uses up tokens. -/
lemma progresses_of_eq {read : Nat → Attempt (α × Nat)} (make : β → α)
    (spell : List Token → Except Refusal (β × List Token))
    (heq : ∀ ts, ts <:+ tokens.list →
      read (tokens.indexOf ts) = tokens.ofReading (Parser.mapValue make (spell ts)))
    (hlength : ∀ ts a rest, spell ts = .ok (a, rest) → rest.length < ts.length) :
    Progresses tokens.marks read := by
  intro i hi
  obtain ⟨ts, hts, rfl⟩ := exists_indexOf_eq hi
  rw [heq ts hts]
  cases hspell : spell ts with
  | error r => exact ends_refuse _
  | ok r =>
    obtain ⟨a, rest⟩ := r
    exact ends_pure ⟨indexOf_lt_indexOf hts (hlength ts a rest hspell), indexOf_lt rest⟩

lemma unexpected_ends {wanted : Wanted} {P : α → Prop} (hi : i < tokens.marks.length) :
    Ends (unexpected tokens.marks wanted i) P := by
  obtain ⟨ts, hts, rfl⟩ := exists_indexOf_eq hi
  rw [unexpected_eq wanted hts]
  exact ends_refuse _

/-- A symbol that is found is left behind. -/
lemma eat_ends (s : Symbol) (hi : i < tokens.marks.length) :
    Ends (eat tokens.marks s i) fun r =>
      r.2 < tokens.marks.length ∧ (r.1 = true → i < r.2) ∧ (r.1 = false → i = r.2) := by
  rcases markAt_cases hi with ⟨token, -, hmark, hbump, hnext⟩ | ⟨hmark, -, -⟩
  · rw [eat, hmark, hbump, pure_bind]
    split_ifs
    · exact ends_pure ⟨hnext, fun _ => Nat.lt_succ_self i, by rintro ⟨⟩⟩
    · exact ends_pure ⟨hi, by rintro ⟨⟩, fun _ => rfl⟩
  · rw [eat, hmark, pure_bind, if_neg (by rintro ⟨⟩)]
    exact ends_pure ⟨hi, by rintro ⟨⟩, fun _ => rfl⟩

theorem semicolonTurn_progresses : TurnsProgress tokens.marks (semicolonTurn tokens.marks) := by
  intro _ i hi
  apply (eat_ends .semicolon hi).bind
  rintro ⟨found, j⟩ ⟨hj, hfound, habsent⟩
  cases found with
  | true => exact ends_pure (isTurnFrom_again (hfound rfl) hj)
  | false => exact ends_pure (isTurnFrom_done (Nat.le_of_eq (habsent rfl)) hj)

variable (hwords : tokens.HasLiterals)

include hwords

/-- A turn of a concatenation joins a literal of the source to what it has, or leaves that. -/
lemma concatenationTurn_ends (literal : String) (hi : i < tokens.marks.length) :
    Ends (concatenationTurn tokens.marks literal i) fun r => IsTurnFrom tokens.marks i r ∧
      ∀ joined, r.1 = .again joined →
        ∃ next, Scan.IsWord .quoted next ∧ joined = Parser.joinQuoted literal next := by
  have hleft : Ends (pure (.done ⟨literal⟩, i) : Attempt (Turn String Ident × Nat)) fun r =>
      IsTurnFrom tokens.marks i r ∧ ∀ joined, r.1 = .again joined →
        ∃ next, Scan.IsWord .quoted next ∧ joined = Parser.joinQuoted literal next :=
    ends_pure ⟨isTurnFrom_done (Nat.le_refl i) hi, by rintro _ ⟨⟩⟩
  rcases markAt_cases hi with ⟨token, -, hmark, hbump, hnext⟩ | ⟨hmark, -, -⟩
  · rw [concatenationTurn, hmark, pure_bind]
    split_ifs
    · rcases markAt_cases hnext with ⟨second, hmem, hmark₂, hbump₂, hlast⟩ | ⟨hmark₂, -, -⟩
      · rw [hmark₂, pure_bind, hbump]
        split
        · rename_i next hquoted
          obtain ⟨lexeme, q⟩ := second
          cases hquoted
          have hword := hwords next q hmem
          rw [pure_bind, hbump₂, pure_bind, join_eq hword]
          refine ends_pure ⟨isTurnFrom_again (by omega) hlast, ?_⟩
          rintro _ ⟨⟩
          exact ⟨next, hword, rfl⟩
        · exact unexpected_ends hnext
      · rw [hmark₂, pure_bind, hbump]
        exact unexpected_ends hnext
    · exact hleft
  · rw [concatenationTurn, hmark, pure_bind, if_neg (by rintro ⟨⟩)]
    exact hleft

theorem concatenationTurn_progresses :
    TurnsProgress tokens.marks (concatenationTurn tokens.marks) :=
  fun literal _ hi => (concatenationTurn_ends hwords literal hi).mono fun _ => And.left

/-- A delimited literal is joined to delimited literals only, and stays delimited. -/
theorem concatenationTurn_delimited {literal : String} (h : IsDelimited literal)
    (hi : i < tokens.marks.length) :
    Ends (concatenationTurn tokens.marks literal i) fun r =>
      ∀ joined, r.1 = .again joined → IsDelimited joined := by
  apply (concatenationTurn_ends hwords literal hi).mono
  rintro r ⟨-, hjoined⟩ joined hagain
  obtain ⟨next, hnext, rfl⟩ := hjoined joined hagain
  exact isDelimited_joinQuoted h (isDelimited_of_isWord hnext)

theorem ident_progresses : Progresses tokens.marks (ident tokens.marks) := by
  apply progresses_of_eq id Parser.ident
  · intro ts hts
    rw [ident_eq hwords hts, Parser.mapValue_id]
  · exact fun _ _ _ => Parser.ident_length

theorem itemTurn_progresses : TurnsProgress tokens.marks (itemTurn tokens.marks) := by
  have hitem (attributes : Attributes) :
      Progresses tokens.marks (item tokens.marks attributes) :=
    progresses_of_eq _ _ (fun _ => item_eq hwords attributes) fun _ _ _ => Parser.item_length
  intro attributes i hi
  rcases markAt_cases hi with ⟨token, -, hmark, hbump, hnext⟩ | ⟨hmark, -, -⟩
  · have hbehind : i < i + 1 := Nat.lt_succ_self i
    rw [itemTurn, hmark, pure_bind, hbump]
    split
    · exact ends_pure (isTurnFrom_done (Nat.le_of_lt hbehind) hnext)
    · exact ends_pure (isTurnFrom_again hbehind hnext)
    · exact ends_pure (isTurnFrom_again hbehind hnext)
    · exact unexpected_ends hi
    · apply (hitem attributes i hi).bind
      rintro ⟨after, j⟩ ⟨hij, hj⟩
      exact ends_pure (isTurnFrom_again hij hj)
  · rw [itemTurn, hmark, pure_bind]
    exact unexpected_ends hi

theorem listTurn_progresses : TurnsProgress tokens.marks (listTurn tokens.marks) := by
  intro attributes i hi
  apply (eat_ends .openBracket hi).bind
  rintro ⟨found, j⟩ ⟨hj, hfound, habsent⟩
  cases found with
  | true =>
    have hij := hfound rfl
    apply ((itemTurn_progresses hwords).loop attributes j hj).bind
    rintro ⟨after, k⟩ ⟨hjk, hk⟩
    exact ends_pure (isTurnFrom_again (Nat.lt_of_lt_of_le hij hjk) hk)
  | false => exact ends_pure (isTurnFrom_done (Nat.le_of_eq (habsent rfl)) hj)

section Rules

variable (rules : Rules)

theorem statement_progresses (scope : Scope) (g : Subgraph) :
    Progresses tokens.marks (statement tokens.marks rules (scope, g)) :=
  progresses_of_eq _ _ (fun ts hts => statement_eq rules hwords ts hts scope g)
    fun _ _ _ => Parser.clause_length

theorem endpoint_progresses (scope : Scope) :
    Progresses tokens.marks (endpoint tokens.marks rules scope) :=
  progresses_of_eq _ _ (fun ts hts => endpoint_eq rules hwords ts hts scope)
    fun _ _ _ => Parser.terminal_length

theorem subgraph_progresses (scope : Scope) :
    Progresses tokens.marks (subgraph tokens.marks rules scope) :=
  progresses_of_eq _ _ (fun ts hts => subgraph_eq rules hwords ts hts scope)
    fun _ _ _ => Parser.block_length

theorem statementsTurn_progresses :
    TurnsProgress tokens.marks (statementsTurn tokens.marks rules) := by
  intro state i hi
  rcases markAt_cases hi with ⟨token, -, hmark, hbump, hnext⟩ | ⟨hmark, -, -⟩
  · rw [statementsTurn, hmark, pure_bind, hbump]
    split
    · exact ends_pure (isTurnFrom_done (Nat.le_refl i) hi)
    · exact ends_pure (isTurnFrom_again (Nat.lt_succ_self i) hnext)
    · exact unexpected_ends hi
    · apply (statement_progresses hwords rules state.1 state.2 i hi).bind
      rintro ⟨after, j⟩ ⟨hij, hj⟩
      exact ends_pure (isTurnFrom_again hij hj)
  · rw [statementsTurn, hmark, pure_bind]
    exact unexpected_ends hi

theorem chainTurn_progresses (scope : Scope) :
    TurnsProgress tokens.marks
      fun endpoints => chainTurn tokens.marks rules (scope, endpoints) := by
  intro endpoints i hi
  beta_reduce
  rcases markAt_cases hi with ⟨token, -, hmark, hbump, hnext⟩ | ⟨hmark, -, -⟩
  · rw [chainTurn, atEdgeOperator, hmark, hbump]
    simp only [pure_bind]
    split_ifs
    · apply (endpoint_progresses hwords rules scope (i + 1) hnext).bind
      rintro ⟨next, j⟩ ⟨hij, hj⟩
      exact ends_pure (isTurnFrom_again (Nat.lt_of_succ_lt hij) hj)
    · exact ends_pure (isTurnFrom_done (Nat.le_refl i) hi)
  · rw [chainTurn, atEdgeOperator, hmark]
    exact ends_pure (isTurnFrom_done (Nat.le_refl i) hi)

end Rules

section Documents

variable (reader : Reader)

theorem block_progresses : Progresses tokens.marks (block tokens.marks reader) :=
  progresses_of_eq _ _ (fun _ => block_eq reader hwords) fun _ _ _ => Parser.declaration_length

theorem blockTurn_progresses : TurnsProgress tokens.marks (blockTurn tokens.marks reader) := by
  intro graphs i hi
  apply (semicolonTurn_progresses.loop () i hi).bind
  rintro ⟨_, j⟩ ⟨hij, hj⟩
  dsimp only at hij hj ⊢
  rcases markAt_cases hj with ⟨token, -, hmark, -, -⟩ | ⟨hmark, -, -⟩
  · rw [hmark, pure_bind, if_neg (by rintro ⟨⟩)]
    apply (block_progresses hwords reader j hj).bind
    rintro ⟨graph, k⟩ ⟨hjk, hk⟩
    exact ends_pure (isTurnFrom_again (Nat.lt_of_le_of_lt hij hjk) hk)
  · rw [hmark, pure_bind, if_pos rfl]
    exact ends_pure (isTurnFrom_done hij hj)

end Documents

end Tokens

/-! ### All inputs -/

/-- How the parser moves over the marks of a source. -/
structure MakesProgress (marks : List Mark) : Prop where
  /-- A mark is left behind by `bump` unless it is the last one, which is that of the end. -/
  bump : ∀ i < marks.length, ∃ mark, markAt marks i = pure mark ∧
    IndexedParser.bump marks i = pure (if mark.lexeme? = none then i else i + 1) ∧
    (mark.lexeme? = none ↔ i + 1 = marks.length)
  ident : Progresses marks (ident marks)
  endpoint : ∀ rules scope, Progresses marks (endpoint marks rules scope)
  subgraph : ∀ rules scope, Progresses marks (subgraph marks rules scope)
  statement : ∀ rules scope g, Progresses marks (statement marks rules (scope, g))
  block : ∀ reader, Progresses marks (block marks reader)
  concatenationTurn : TurnsProgress marks (concatenationTurn marks)
  itemTurn : TurnsProgress marks (itemTurn marks)
  listTurn : TurnsProgress marks (listTurn marks)
  chainTurn : ∀ rules scope,
    TurnsProgress marks fun endpoints => chainTurn marks rules (scope, endpoints)
  statementsTurn : ∀ rules, TurnsProgress marks (statementsTurn marks rules)
  semicolonTurn : TurnsProgress marks (semicolonTurn marks)
  blockTurn : ∀ reader, TurnsProgress marks (blockTurn marks reader)
  /-- What is cut in a concatenation is delimited, and so is what it is joined to. -/
  quoted : ∀ mark ∈ marks, ∀ text, mark.lexeme? = some (.word .quoted text) → IsDelimited text
  joined : ∀ literal, IsDelimited literal → ∀ i < marks.length,
    Ends (IndexedParser.concatenationTurn marks literal i) fun r =>
      ∀ next, r.1 = .again next → IsDelimited next

lemma makesProgress {tokens : Tokens} (hwords : tokens.HasLiterals) :
    MakesProgress tokens.marks where
  bump i hi := by
    rcases markAt_cases hi with ⟨token, -, hmark, hbump, hnext⟩ | ⟨hmark, hbump, hlast⟩
    · exact ⟨_, hmark, hbump, by rintro ⟨⟩, fun h => absurd h (Nat.ne_of_lt hnext)⟩
    · exact ⟨_, hmark, hbump, fun _ => hlast, fun _ => rfl⟩
  ident := ident_progresses hwords
  endpoint := endpoint_progresses hwords
  subgraph := subgraph_progresses hwords
  statement := statement_progresses hwords
  block := block_progresses hwords
  concatenationTurn := concatenationTurn_progresses hwords
  itemTurn := itemTurn_progresses hwords
  listTurn := listTurn_progresses hwords
  chainTurn := chainTurn_progresses hwords
  statementsTurn := statementsTurn_progresses hwords
  semicolonTurn := semicolonTurn_progresses
  blockTurn := blockTurn_progresses hwords
  quoted := by
    intro mark hmark text htext
    rcases List.mem_append.1 hmark with hmark | hmark
    · obtain ⟨⟨lexeme, p⟩, htoken, rfl⟩ := List.mem_map.1 hmark
      cases htext
      exact isDelimited_of_isWord (hwords text p htoken)
    · cases List.mem_singleton.1 hmark
      cases htext
  joined _ hliteral _ hi := concatenationTurn_delimited hwords hliteral hi

/-- The scanner and the parser end on every source, with what the reader makes of it or with the
error that the reader reports. Neither traps, each call of the scanner goes forward in the source,
and each step of the parser in the marks. -/
theorem parse_ends (reader : Reader) (source : String) :
    (∀ p : Position, (⟨p.offset⟩ : String.Pos.Raw).IsValid source →
      Ends (OffsetScan.nextToken source p) fun r => OffsetScan.Advances source p r.1 r.2) ∧
    OffsetScan.tokenize source = .ofExcept (Tokens.marks <$> Tokens.ofString source) ∧
    Ends (OffsetScan.tokenize source) MakesProgress ∧
    ∃ read : Except SyntaxError Parsed, parse reader source = .ofExcept read ∧
      reader.parse source = read.mapError .source := by
  refine ⟨fun p hp => ?_, OffsetScan.tokenize_eq source, ?_, ?_⟩
  · obtain ⟨rest, hrest⟩ := Position.exists_faces_iff.2 hp
    exact OffsetScan.nextToken_advances hrest
  · rw [OffsetScan.tokenize_eq]
    cases htokens : Tokens.ofString source with
    | error e => exact ends_refuse e
    | ok tokens => exact ends_pure (makesProgress (hasLiterals_of_ofString htokens))
  · refine ⟨_, parse_eq reader source, ?_⟩
    rw [Reader.parse]
    cases Document.ofString source <;> rfl

end IndexedParser

end DotGraph
