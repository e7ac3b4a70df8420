import DotGraph.Proofs.AttributeMerge
import DotGraph.Proofs.GrammarComplete
import DotGraph.Proofs.SourcePlaces

/-!
# Bracketed lists

Lists that follow each other are read as one, up to the first token that opens no other list. Their
store keeps the last item of each name where it stands.
-/

namespace DotGraph.Parser

open Grammar

variable {ts rest : List Token} {items : List Item}

/-- A reader that leaves the lexemes of a final part leaves that part. -/
lemma EndsIn.eq_ok {α : Type} {read : Except Refusal (α × List Token)} {a : α}
    {used : List Token} (hend : EndsIn (used ++ rest) read) (h : Leaves read a (lexemes rest)) :
    read = .ok (a, rest) := by
  obtain ⟨left, hleft, rfl⟩ := h
  have hlength : left.length = rest.length := by
    simpa [lexemes] using congrArg List.length hleft
  have hsuffix : left <:+ rest :=
    List.suffix_of_suffix_length_le hend (List.suffix_append used rest) (Nat.le_of_eq hlength)
  rw [hsuffix.eq_of_length hlength]

lemma symbol?_ne_of_items (h : Parser.items ts = .ok (items, rest)) :
    symbol? rest ≠ some .openBracket := by
  fun_induction Parser.items ts generalizing items rest with
  | case1 => cases h
  | case2 p q ts ih => exact ih h
  | case3 p ts hopen =>
    cases h
    intro hs
    unfold symbol? at hs
    split at hs
    · cases hs
      exact hopen _ _ rfl
    · cases hs
  | case4 p ts ih => exact ih h
  | case5 p ts ih => exact ih h
  | case6 => cases h
  | case7 => cases h
  | case8 token ts _ _ _ _ first left hfirst others last hr ih =>
    cases h
    exact ih hr

lemma symbol?_ne_of_attributeLists (h : attributeLists ts = .ok (items, rest)) :
    symbol? rest ≠ some .openBracket := by
  unfold attributeLists at h
  split at h
  · exact symbol?_ne_of_items h
  · rename_i hopen
    cases h
    exact hopen

lemma attributeLists_eq_ok_iff : attributeLists ts = .ok (items, rest) ↔
    ∃ used, ts = used ++ rest ∧ IsLists (lexemes used) items ∧
      symbol? rest ≠ some .openBracket := by
  constructor
  · intro h
    have hend := attributeLists_endsIn ts
    rw [h] at hend
    obtain ⟨used, rfl⟩ := hend
    obtain ⟨xs, hxs, hx⟩ := attributeLists_sound h
    obtain rfl : lexemes used = xs := by
      rw [lexemes, List.map_append] at hxs
      exact List.append_cancel_right hxs
    exact ⟨used, rfl, hx, symbol?_ne_of_attributeLists h⟩
  · rintro ⟨used, rfl, hx, hopen⟩
    apply (attributeLists_endsIn (used ++ rest)).eq_ok
    apply attributeLists_complete hx (List.map_append ..)
    rwa [← symbol?_eq]

/-- The bracketed lists at the front are read up to the first token behind the last of them, and
their store has the items that no later item of the same name follows, in their order. -/
theorem ofItems_attributeLists_iff {store : Attributes} :
    (fun read => (Attributes.ofItems read.1, read.2)) <$> attributeLists ts = .ok (store, rest) ↔
      ∃ used items, ts = used ++ rest ∧ IsLists (lexemes used) items ∧
        symbol? rest ≠ some .openBracket ∧ store.entries = Keyed.lastEntries items := by
  constructor
  · intro h
    cases hread : attributeLists ts with
    | error e =>
      rw [hread] at h
      cases h
    | ok read =>
      obtain ⟨items, left⟩ := read
      rw [hread] at h
      cases h
      obtain ⟨used, hts, hx, hopen⟩ := attributeLists_eq_ok_iff.1 hread
      exact ⟨used, items, hts, hx, hopen, Attributes.entries_ofItems items⟩
  · rintro ⟨used, items, hts, hx, hopen, hstore⟩
    have hread := attributeLists_eq_ok_iff.2 ⟨used, hts, hx, hopen⟩
    have heq : Attributes.ofItems items = store :=
      Attributes.ext ((Attributes.entries_ofItems items).trans hstore.symm)
    rw [hread, ← heq]
    rfl

end DotGraph.Parser
