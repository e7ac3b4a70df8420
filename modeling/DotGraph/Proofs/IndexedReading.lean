import DotGraph.Proofs.CanonicalIdent
import DotGraph.Proofs.IndexedParser
import DotGraph.Proofs.SourcePlaces

/-!
# What the parser by index reads

The parser that keeps an index stands in front of a rest of the tokens, and from there it does what
the reader of that rest does: it ends at the index of what the reader leaves, with what the clauses
make of the container, or refuses the source at the place that the reader names.
-/

namespace DotGraph

open Attempt

namespace Tokens

variable (tokens : Tokens)

/-- Where the given rest of the tokens starts. -/
def indexOf (ts : List Token) : Nat := tokens.list.length - ts.length

/-- The first mark of a rest. -/
def front : List Token → Mark
  | [] => ⟨none, tokens.stop⟩
  | token :: _ => ⟨some token.lexeme, token.position⟩

@[simp] lemma front_symbol? (ts : List Token) : (tokens.front ts).symbol? = Parser.symbol? ts := by
  cases ts with
  | nil => rfl
  | cons token ts =>
    obtain ⟨lexeme, p⟩ := token
    cases lexeme <;> rfl

@[simp] lemma front_keyword? (ts : List Token) :
    (tokens.front ts).keyword? = Parser.keyword? ts := by
  cases ts <;> rfl

lemma length_marks : tokens.marks.length = tokens.list.length + 1 := by
  rw [marks, List.length_append, List.length_map, List.length_singleton]

lemma getElem?_marks (i : Nat) :
    tokens.marks[min i tokens.list.length]? = some (tokens.front (tokens.list.drop i)) := by
  by_cases hi : i < tokens.list.length
  · rw [Nat.min_eq_left (Nat.le_of_lt hi), marks,
      List.getElem?_append_left (by simpa using hi), List.getElem?_map,
      List.getElem?_eq_getElem hi, List.drop_eq_getElem_cons hi]
    rfl
  · rw [Nat.min_eq_right (Nat.le_of_not_lt hi), marks,
      List.getElem?_append_right (by simp), List.drop_eq_nil_of_le (Nat.le_of_not_lt hi)]
    simp [front]

end Tokens

section Index

variable {tokens : Tokens} {ts rest : List Token}

lemma drop_indexOf (hts : ts <:+ tokens.list) : tokens.list.drop (tokens.indexOf ts) = ts :=
  (List.suffix_iff_eq_drop.1 hts).symm

lemma indexOf_lt (ts : List Token) : tokens.indexOf ts < tokens.marks.length := by
  rw [Tokens.length_marks]
  exact Nat.lt_succ_of_le (Nat.sub_le _ _)

lemma exists_indexOf_eq {i : Nat} (hi : i < tokens.marks.length) :
    ∃ ts, ts <:+ tokens.list ∧ tokens.indexOf ts = i := by
  rw [Tokens.length_marks] at hi
  refine ⟨tokens.list.drop i, List.drop_suffix i _, ?_⟩
  rw [Tokens.indexOf, List.length_drop]
  omega

lemma indexOf_lt_indexOf (hts : ts <:+ tokens.list) (h : rest.length < ts.length) :
    tokens.indexOf ts < tokens.indexOf rest := by
  have hlength := hts.length_le
  rw [Tokens.indexOf, Tokens.indexOf]
  omega

lemma indexOf_tail {token : Token} (hts : token :: ts <:+ tokens.list) :
    tokens.indexOf (token :: ts) + 1 = tokens.indexOf ts := by
  have hlength := hts.length_le
  rw [List.length_cons] at hlength
  rw [Tokens.indexOf, Tokens.indexOf, List.length_cons]
  omega

end Index

namespace Parser

/-- The reading with a value that is made from the one that was read. -/
def mapValue (make : α → β) : Except Refusal (α × List Token) → Except Refusal (β × List Token)
  | .ok (a, rest) => .ok (make a, rest)
  | .error r => .error r

lemma mapValue_id (read : Except Refusal (α × List Token)) : mapValue id read = read := by
  cases read <;> rfl

lemma mapValue_bind (make : β → γ) (read : Except Refusal α)
    (f : α → Except Refusal (β × List Token)) :
    mapValue make (read >>= f) = read >>= fun r => mapValue make (f r) := by
  cases read <;> rfl

lemma bind_of_mapValue (make : α → β) (read : Except Refusal (α × List Token))
    (f : β × List Token → Except Refusal γ) :
    mapValue make read >>= f = read >>= fun r => f (make r.1, r.2) := by
  cases read <;> rfl

lemma mapValue_mapValue (first : α → β) (second : β → γ)
    (read : Except Refusal (α × List Token)) :
    mapValue second (mapValue first read) = mapValue (second ∘ first) read := by
  cases read <;> rfl

end Parser

/-- What is quoted among the tokens is a literal from its first quote to its last. -/
def Tokens.HasLiterals (tokens : Tokens) : Prop :=
  ∀ text p, ⟨.word .quoted text, p⟩ ∈ tokens.list → Scan.IsWord .quoted text

/-- The run of a reading: it ends at the index of what is left. -/
def Tokens.ofReading (tokens : Tokens) : Except Refusal (α × List Token) → Attempt (α × Nat)
  | .ok (a, rest) => pure (a, tokens.indexOf rest)
  | .error r => refuse (r.toSyntaxError tokens.stop)

/-- The store with one more item of a list, at the end. -/
def Attributes.addItem (attributes : Attributes) (item : Item) : Attributes :=
  (attributes.erase item.1).set item.1 item.2

def Attributes.addItems (attributes : Attributes) (items : List Item) : Attributes :=
  items.foldl addItem attributes

namespace IndexedParser

variable {tokens : Tokens} {ts rest : List Token}

lemma lower_length (tokens : Tokens) : lower tokens.marks.length = pure tokens.list.length := by
  rw [Tokens.length_marks]
  rfl

lemma markAt_drop (tokens : Tokens) (i : Nat) :
    markAt tokens.marks i = pure (tokens.front (tokens.list.drop i)) := by
  rw [markAt, lower_length, pure_bind, Tokens.getElem?_marks, checked_some]

lemma markAt_eq (hts : ts <:+ tokens.list) :
    markAt tokens.marks (tokens.indexOf ts) = pure (tokens.front ts) := by
  rw [markAt_drop, drop_indexOf hts]

lemma markAt_succ (hts : ts <:+ tokens.list) :
    markAt tokens.marks (tokens.indexOf ts + 1) = pure (tokens.front ts.tail) := by
  rw [markAt_drop, ← List.drop_drop, drop_indexOf hts, List.drop_one]

lemma bump_eq (hts : ts <:+ tokens.list) :
    bump tokens.marks (tokens.indexOf ts) = pure (tokens.indexOf ts.tail) := by
  rw [bump, markAt_eq hts, pure_bind, lower_length, pure_bind]
  cases ts with
  | nil => simp [Tokens.indexOf]
  | cons token ts =>
    have hsucc := indexOf_tail hts
    have hlt : tokens.indexOf (token :: ts) < tokens.list.length := by
      have hle : tokens.indexOf ts ≤ tokens.list.length := Nat.sub_le _ _
      omega
    rw [if_pos hlt, hsucc]
    rfl

lemma unexpected_eq (wanted : Wanted) (hts : ts <:+ tokens.list) :
    (unexpected tokens.marks wanted (tokens.indexOf ts) : Attempt α) =
      refuse ((Refusal.unexpected wanted ts).toSyntaxError tokens.stop) := by
  rw [unexpected, markAt_eq hts]
  cases ts <;> rfl

lemma eat_eq (s : Symbol) (hts : ts <:+ tokens.list) :
    eat tokens.marks s (tokens.indexOf ts) =
      pure (if Parser.symbol? ts = some s then (true, tokens.indexOf ts.tail)
        else (false, tokens.indexOf ts)) := by
  rw [eat, markAt_eq hts, pure_bind, Tokens.front_symbol?, bump_eq hts]
  split_ifs <;> rfl

lemma expect_bind (s : Symbol) (wanted : Wanted) {k : Nat → Attempt (α × Nat)}
    {f : List Token → Except Refusal (α × List Token)} (hts : ts <:+ tokens.list)
    (hk : Parser.symbol? ts = some s → ts.tail <:+ tokens.list →
      k (tokens.indexOf ts.tail) = tokens.ofReading (f ts.tail)) :
    expect tokens.marks s wanted (tokens.indexOf ts) >>= k =
      tokens.ofReading (Parser.expect s wanted ts >>= f) := by
  rw [expect, eat_eq s hts, pure_bind, Parser.expect]
  split_ifs with hs
  · exact hk hs ((List.tail_suffix ts).trans hts)
  · dsimp only
    rw [if_neg Bool.false_ne_true, unexpected_eq _ hts]
    rfl

lemma suffix_of_ok {read : Except Refusal (α × List Token)} {a : α} (hts : ts <:+ tokens.list)
    (hends : Parser.EndsIn ts read) (h : read = .ok (a, rest)) : rest <:+ tokens.list := by
  subst h
  exact List.IsSuffix.trans hends hts

/-- Readings that follow each other run one after the other. -/
lemma ofReading_bind {read : Except Refusal (α × List Token)}
    {f : α × List Token → Except Refusal (β × List Token)} {k : α × Nat → Attempt (β × Nat)}
    (hts : ts <:+ tokens.list) (hends : Parser.EndsIn ts read)
    (hk : ∀ a rest, read = .ok (a, rest) → rest <:+ tokens.list →
      k (a, tokens.indexOf rest) = tokens.ofReading (f (a, rest))) :
    tokens.ofReading read >>= k = tokens.ofReading (read >>= f) := by
  cases read with
  | error r => rfl
  | ok r => exact hk r.1 r.2 rfl (suffix_of_ok hts hends rfl)

/-- The same where the first reading is of a value that is made from what the list spells. -/
lemma ofReading_mapValue_bind {read : Except Refusal (α × List Token)} {make : α → γ}
    {f : α × List Token → Except Refusal (β × List Token)} {k : γ × Nat → Attempt (β × Nat)}
    (hts : ts <:+ tokens.list) (hends : Parser.EndsIn ts read)
    (hk : ∀ a rest, read = .ok (a, rest) → rest <:+ tokens.list →
      k (make a, tokens.indexOf rest) = tokens.ofReading (f (a, rest))) :
    tokens.ofReading (Parser.mapValue make read) >>= k = tokens.ofReading (read >>= f) := by
  cases read with
  | error r => rfl
  | ok r => exact hk r.1 r.2 rfl (suffix_of_ok hts hends rfl)

lemma exists_of_symbol? {s : Symbol} (h : Parser.symbol? ts = some s) :
    ∃ p rest, ts = ⟨.symbol s, p⟩ :: rest := by
  unfold Parser.symbol? at h
  split at h
  · cases h
    exact ⟨_, _, rfl⟩
  · cases h

/-- A run behind a symbol that may be there, where it is found and where it is not. -/
lemma eat_bind {s : Symbol} {k : Bool × Nat → Attempt α} {run : Attempt α}
    (hts : ts <:+ tokens.list)
    (hfound : Parser.symbol? ts = some s → ts.tail <:+ tokens.list →
      k (true, tokens.indexOf ts.tail) = run)
    (habsent : Parser.symbol? ts ≠ some s → k (false, tokens.indexOf ts) = run) :
    eat tokens.marks s (tokens.indexOf ts) >>= k = run := by
  rw [eat_eq s hts, pure_bind]
  split_ifs with hs
  · exact hfound hs ((List.tail_suffix ts).trans hts)
  · exact habsent hs

/-! ### Identifiers -/

lemma slice_behind_quote {text : String} {cs : List Char} (h : text.toList = '"' :: cs) :
    slice text 1 text.utf8ByteSize = pure (String.ofList cs) := by
  have hsplit : text = String.ofList ['"'] ++ String.ofList cs ++ "" := by
    rw [String.append_empty, ← String.ofList_append, List.singleton_append, ← h,
      String.ofList_toList]
  have hcut := slice_append (String.ofList ['"']) (String.ofList cs) ""
  rw [← hsplit, ← String.append_empty (s := String.ofList ['"'] ++ String.ofList cs),
    ← hsplit] at hcut
  exact hcut

lemma join_eq {literal next : String} (h : Scan.IsWord .quoted next) :
    join literal next = pure (Parser.joinQuoted literal next) := by
  obtain ⟨body, -, hnext⟩ := Scan.isWord_quoted_iff.1 h
  rw [join, slice_behind_quote hnext, Parser.joinQuoted, hnext, List.drop_one, List.tail_cons,
    pure_bind, ← String.ofList_append]

section Quoted

variable (hwords : tokens.HasLiterals)

include hwords

lemma concatenation_eq (literal : String) (hts : ts <:+ tokens.list) :
    loop (concatenationTurn tokens.marks) literal (tokens.indexOf ts) =
      tokens.ofReading (Parser.concatenation literal ts) := by
  fun_induction Parser.concatenation literal ts with
  | case1 literal p next q ts ih =>
    have hnext := (List.suffix_cons _ _).trans hts
    have hword := hwords next q (hnext.subset List.mem_cons_self)
    rw [loop, concatenationTurn, markAt_eq hts, markAt_succ hts, bump_eq hts]
    simp only [pure_bind, List.tail_cons, Tokens.front, bump_eq hnext, join_eq hword]
    exact ih ((List.suffix_cons _ _).trans hnext)
  | case2 literal p ts h =>
    have hrest := (List.suffix_cons _ _).trans hts
    have hfront : ∀ next, (tokens.front ts).lexeme? ≠ some (.word .quoted next) := by
      intro next hnext
      cases ts with
      | nil => cases hnext
      | cons token ts =>
        obtain ⟨lexeme, q⟩ := token
        cases hnext
        exact h next q ts rfl
    rw [loop, concatenationTurn, markAt_eq hts, markAt_succ hts, bump_eq hts]
    simp only [pure_bind, Tokens.front_symbol?, Parser.symbol?, if_true, List.tail_cons]
    rw [unexpected_eq _ hrest]
    rfl
  | case3 literal ts h₁ h₂ =>
    have hfront : Parser.symbol? ts ≠ some .plus := by
      intro hplus
      obtain ⟨p, rest, rfl⟩ := exists_of_symbol? hplus
      exact h₂ p rest rfl
    rw [loop, concatenationTurn, markAt_eq hts, pure_bind, Tokens.front_symbol?, if_neg hfront]
    rfl

lemma ident_eq (hts : ts <:+ tokens.list) :
    ident tokens.marks (tokens.indexOf ts) = tokens.ofReading (Parser.ident ts) := by
  rw [ident, markAt_eq hts, bump_eq hts]
  cases ts with
  | nil => exact unexpected_eq _ hts
  | cons token ts =>
    obtain ⟨lexeme, p⟩ := token
    cases lexeme with
    | symbol s => exact unexpected_eq _ hts
    | word kind text =>
      cases kind with
      | name =>
        rw [Parser.ident]
        simp only [pure_bind, Tokens.front]
        split_ifs <;> rfl
      | numeral => rfl
      | html => rfl
      | quoted => exact concatenation_eq hwords text ((List.suffix_cons _ _).trans hts)

lemma anchor_eq (hts : ts <:+ tokens.list) :
    anchor tokens.marks (tokens.indexOf ts) = tokens.ofReading (Parser.anchor ts) := by
  rw [Parser.anchor]
  apply eat_bind hts
  · intro hcolon htail
    dsimp only
    rw [if_pos rfl, if_pos hcolon, ident_eq hwords htail]
    apply ofReading_bind htail (Parser.ident_endsIn _)
    intro field rest _ hrest
    apply eat_bind hrest
    · intro hcolon htail
      dsimp only
      rw [if_pos rfl, if_pos hcolon, ident_eq hwords htail]
      apply ofReading_bind htail (Parser.ident_endsIn _)
      intro compass rest _ hrest
      rfl
    · intro hcolon
      dsimp only
      rw [if_neg hcolon]
      rfl
  · intro hcolon
    rw [if_neg hcolon]
    rfl

/-! ### Attributes -/

lemma item_eq (attributes : Attributes) (hts : ts <:+ tokens.list) :
    item tokens.marks attributes (tokens.indexOf ts) =
      tokens.ofReading (Parser.mapValue attributes.addItem (Parser.item ts)) := by
  rw [item, ident_eq hwords hts, Parser.item, Parser.mapValue_bind]
  apply ofReading_bind hts (Parser.ident_endsIn _)
  intro name rest _ hrest
  apply eat_bind hrest
  · intro hequals htail
    dsimp only
    rw [if_pos rfl, if_pos hequals, ident_eq hwords htail, Parser.mapValue_bind]
    apply ofReading_bind htail (Parser.ident_endsIn _)
    intro value rest _ hrest
    rfl
  · intro hequals
    dsimp only
    rw [if_neg hequals]
    rfl

/-- A turn of the loop over items reads an item where no mark of a list stands. -/
lemma itemTurn_item (attributes : Attributes) {token : Token}
    (hts : token :: ts <:+ tokens.list)
    (hclose : ∀ p, token ≠ ⟨.symbol .closeBracket, p⟩)
    (hcomma : ∀ p, token ≠ ⟨.symbol .comma, p⟩)
    (hsemicolon : ∀ p, token ≠ ⟨.symbol .semicolon, p⟩) :
    itemTurn tokens.marks attributes (tokens.indexOf (token :: ts)) =
      tokens.ofReading (Parser.mapValue (fun entry => .again (attributes.addItem entry))
        (Parser.item (token :: ts))) := by
  have hitem : (item tokens.marks attributes (tokens.indexOf (token :: ts)) >>= fun r =>
      pure (.again r.1, r.2) : Attempt (Turn Attributes Attributes × Nat)) =
      tokens.ofReading (Parser.mapValue (fun entry => .again (attributes.addItem entry))
        (Parser.item (token :: ts))) := by
    rw [item_eq hwords attributes hts]
    cases Parser.item (token :: ts) <;> rfl
  rw [itemTurn, markAt_eq hts]
  obtain ⟨lexeme, p⟩ := token
  cases lexeme with
  | word kind text => exact hitem
  | symbol s =>
    cases s
    case closeBracket => exact absurd rfl (hclose p)
    case comma => exact absurd rfl (hcomma p)
    case semicolon => exact absurd rfl (hsemicolon p)
    all_goals exact hitem

omit hwords in
lemma listTurn_eq (attributes : Attributes) (hts : ts <:+ tokens.list) :
    listTurn tokens.marks attributes (tokens.indexOf ts) =
      if Parser.symbol? ts = some .openBracket then do
        let (attributes, i) ← loop (itemTurn tokens.marks) attributes (tokens.indexOf ts.tail)
        return (.again attributes, i)
      else pure (.done attributes, tokens.indexOf ts) := by
  apply eat_bind hts
  · intro hs _
    rw [if_pos hs]
    rfl
  · intro hs
    rw [if_neg hs]
    rfl

/-- The two loops of bracketed lists, from inside of a list. -/
lemma lists_eq (attributes : Attributes) (hts : ts <:+ tokens.list) : (do
    let (attributes, i) ← loop (itemTurn tokens.marks) attributes (tokens.indexOf ts)
    loop (listTurn tokens.marks) attributes i) =
      tokens.ofReading (Parser.mapValue attributes.addItems (Parser.items ts)) := by
  fun_induction Parser.items ts generalizing attributes with
  | case1 =>
    rw [loop, itemTurn, markAt_eq hts]
    simp only [pure_bind, Tokens.front, unexpected_eq _ hts]
    rfl
  | case2 p q rest ih =>
    have hopen := (List.suffix_cons _ _).trans hts
    have hrest := (List.suffix_cons _ _).trans hopen
    refine Eq.trans ?_ (ih attributes hrest)
    rw [loop, itemTurn, markAt_eq hts, bump_eq hts]
    simp only [pure_bind, Tokens.front, List.tail_cons]
    rw [loop, listTurn_eq attributes hopen]
    simp only [Parser.symbol?, if_true, List.tail_cons, bind_assoc]
    rfl
  | case3 p rest h =>
    have hrest := (List.suffix_cons _ _).trans hts
    have hclosed : Parser.symbol? rest ≠ some .openBracket := by
      intro hopen
      obtain ⟨q, others, rfl⟩ := exists_of_symbol? hopen
      exact h q others rfl
    rw [loop, itemTurn, markAt_eq hts, bump_eq hts]
    simp only [pure_bind, Tokens.front, List.tail_cons]
    rw [loop, listTurn_eq attributes hrest, if_neg hclosed]
    rfl
  | case4 p rest ih | case5 p rest ih =>
    rw [loop, itemTurn, markAt_eq hts, bump_eq hts]
    exact ih attributes ((List.suffix_cons _ _).trans hts)
  | case6 token rest _ hclose hcomma hsemicolon r hr =>
    rw [loop, itemTurn_item hwords attributes hts hclose hcomma hsemicolon, hr]
    rfl
  | case7 token rest _ hclose hcomma hsemicolon first left hfirst r hr ih
  | case8 token rest _ hclose hcomma hsemicolon first left hfirst others last hr ih =>
    have hgo := ih (attributes.addItem first)
      (suffix_of_ok hts (Parser.item_endsIn _) hfirst)
    rw [hr] at hgo
    rw [loop, itemTurn_item hwords attributes hts hclose hcomma hsemicolon, hfirst]
    exact hgo

lemma attributeLists_eq (hts : ts <:+ tokens.list) :
    attributeLists tokens.marks (tokens.indexOf ts) =
      tokens.ofReading (Parser.mapValue .ofItems (Parser.attributeLists ts)) := by
  rw [attributeLists, loop, listTurn_eq .empty hts, Parser.attributeLists]
  split_ifs with hopen
  · rw [bind_assoc]
    exact lists_eq hwords .empty ((List.tail_suffix ts).trans hts)
  · rfl

lemma requiredLists_eq (hts : ts <:+ tokens.list) :
    requiredLists tokens.marks (tokens.indexOf ts) =
      tokens.ofReading (Parser.mapValue .ofItems (Parser.requiredLists ts.tail)) := by
  have htail := (List.tail_suffix ts).trans hts
  rw [requiredLists, bump_eq hts, pure_bind, markAt_eq htail, pure_bind, Tokens.front_symbol?,
    attributeLists_eq hwords htail, Parser.attributeLists, Parser.requiredLists]
  split_ifs
  · rfl
  · exact unexpected_eq _ htail

/-! ### Names -/

lemma optionalName_eq (hts : ts <:+ tokens.list) :
    optionalName tokens.marks (tokens.indexOf ts) =
      tokens.ofReading (Parser.optionalName ts) := by
  rw [optionalName, markAt_eq hts, pure_bind, Tokens.front_symbol?, Parser.optionalName]
  split_ifs
  · rfl
  · rw [ident_eq hwords hts]
    apply ofReading_bind hts (Parser.ident_endsIn ts)
    intro name rest _ _
    rfl

lemma blockName_eq (hts : ts <:+ tokens.list) :
    blockName tokens.marks (tokens.indexOf ts) = tokens.ofReading (Parser.blockName ts) := by
  rw [blockName, markAt_eq hts, pure_bind, Tokens.front_keyword?, Parser.blockName]
  split_ifs
  · rw [bump_eq hts]
    exact optionalName_eq hwords ((List.tail_suffix ts).trans hts)
  · rfl

end Quoted

lemma atBlock_eq (hts : ts <:+ tokens.list) :
    atBlock tokens.marks (tokens.indexOf ts) = pure (Parser.atBlock ts) := by
  rw [atBlock, markAt_eq hts, pure_bind, Tokens.front_keyword?, Tokens.front_symbol?]
  rfl

lemma atEdgeOperator_eq (hts : ts <:+ tokens.list) :
    atEdgeOperator tokens.marks (tokens.indexOf ts) = pure (Parser.atEdgeOperator ts) := by
  rw [atEdgeOperator, markAt_eq hts, pure_bind, Tokens.front_symbol?]
  rfl

end IndexedParser

end DotGraph
