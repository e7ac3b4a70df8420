import DotGraph.Printer
import DotGraph.Proofs.CanonicalGraph
import DotGraph.Proofs.Layout

/-!
# Printed text

The text of a canonical graph reads as one declaration, with a clause for each attribute and each
statement. Texts are read from the back: each piece is followed by a text that reads already, and
a piece that ends in a word asks for one that does not run into it.
-/

namespace DotGraph

open Scan Grammar

/-! ### Pieces of text -/

variable {v : Vocabulary}

/-- The text is laid out as these lexemes in front of anything. -/
def Spells (v : Vocabulary) (text : String) (xs : List Lexeme) : Prop :=
  ∀ cs ys, LaidOut v cs ys → LaidOut v (text.toList ++ cs) (xs ++ ys)

/-- The text is laid out as these lexemes in front of anything that it does not run into. -/
def SpellsWord (v : Vocabulary) (text : String) (xs : List Lexeme) : Prop :=
  ∀ cs ys, Breaks cs → LaidOut v cs ys → LaidOut v (text.toList ++ cs) (xs ++ ys)

/-- No word runs into the text, which is not empty. -/
def Delimits (text : String) : Prop := Breaks text.toList

lemma Delimits.append {text : String} (h : Delimits text) (more : String) :
    Delimits (text ++ more) := by
  rw [Delimits, String.toList_append]
  exact Breaks.append h more.toList

lemma Spells.spellsWord {text : String} {xs : List Lexeme} (h : Spells v text xs) :
    SpellsWord v text xs := fun cs ys _ hr => h cs ys hr

lemma Spells.append {s t : String} {xs ys : List Lexeme} (hs : Spells v s xs)
    (ht : Spells v t ys) : Spells v (s ++ t) (xs ++ ys) := by
  intro cs zs hr
  rw [String.toList_append, List.append_assoc, List.append_assoc]
  exact hs _ _ (ht cs zs hr)

lemma Spells.append_word {s t : String} {xs ys : List Lexeme} (hs : Spells v s xs)
    (ht : SpellsWord v t ys) : SpellsWord v (s ++ t) (xs ++ ys) := by
  intro cs zs hc hr
  rw [String.toList_append, List.append_assoc, List.append_assoc]
  exact hs _ _ (ht cs zs hc hr)

lemma SpellsWord.append {s t : String} {xs ys : List Lexeme} (hs : SpellsWord v s xs)
    (hd : Delimits t) (ht : Spells v t ys) : Spells v (s ++ t) (xs ++ ys) := by
  intro cs zs hr
  rw [String.toList_append, List.append_assoc, List.append_assoc]
  exact hs _ _ (Breaks.append hd cs) (ht cs zs hr)

lemma spells_empty : Spells v "" [] := fun _ _ hr => hr

lemma spells_blanks {text : String}
    (h : ∀ c ∈ text.toList, Text.isBlank c = true ∧ (c.toNat < 0x80 ∨ c ∈ v.blanks)) :
    Spells v text [] := fun _ _ hr => hr.blanks h

lemma spells_symbol {text : String} {c : Char} {s : Symbol} (ht : text.toList = [c])
    (hs : symbol? c = some s) (hp : s ≠ .plus) : Spells v text [.symbol s] := by
  intro cs ys hr
  rw [ht]
  exact .symbol hs hp hr

lemma spells_space : Spells v " " [] := fun _ _ hr => .blank rfl (.inl (by decide)) hr

lemma spells_newline : Spells v "\n" [] := fun _ _ hr => .blank rfl (.inl (by decide)) hr

lemma spells_semicolon : Spells v ";" [.symbol .semicolon] := spells_symbol rfl rfl (by simp)

lemma spells_colon : Spells v ":" [.symbol .colon] := spells_symbol rfl rfl (by simp)

lemma spells_equals : Spells v "=" [.symbol .equals] := spells_symbol rfl rfl (by simp)

lemma delimits_of_toList {text : String} {c : Char} {cs : List Char} (ht : text.toList = c :: cs)
    (hc : Ident.isNameChar c = false) (hp : c ≠ '.') : Delimits text := by
  rw [Delimits, ht]
  exact breaks_cons hc hp cs

lemma delimits_space : Delimits " " := delimits_of_toList rfl rfl (by decide)

lemma delimits_semicolon : Delimits ";" := delimits_of_toList rfl rfl (by decide)

lemma delimits_colon : Delimits ":" := delimits_of_toList rfl rfl (by decide)

lemma delimits_equals : Delimits "=" := delimits_of_toList rfl rfl (by decide)

/-- The keywords are names. -/
lemma spells_keyword (k : Keyword) : SpellsWord v k.text [.word .name k.text] :=
  fun _ _ hc hr => .keyword k hc hr

variable (v) in
lemma spells_keyword_space (k : Keyword) : Spells v (k.text ++ " ") [.word .name k.text] :=
  (spells_keyword k).append delimits_space spells_space

lemma keyword?_text (k : Keyword) : (Lexeme.word .name k.text).keyword? = some k := by
  cases k <;> rfl

/-! ### Identifiers and anchors -/

lemma spells_ident {x : Ident} (h : v.ident x) :
    ∃ xs, IsIdent xs x ∧ SpellsWord v x.toDot xs := by
  obtain ⟨kind, hw, hid⟩ := (v.canonical x h).isIdent
  refine ⟨_, hid, fun cs ys hc hr => ?_⟩
  rw [(v.canonical x h).toDot_eq]
  exact .word hw h hc hr

lemma spells_anchor {anchor : String} (h : IsAnchorText v.ident anchor) :
    ∃ xs, IsAnchor (.symbol .colon :: xs) (some anchor) ∧ SpellsWord v anchor xs := by
  rcases h with ⟨x, hx, rfl⟩ | ⟨x, y, hx, hy, rfl⟩
  · obtain ⟨xs, hid, hs⟩ := spells_ident hx
    exact ⟨xs, .field hid, (v.canonical _ hx).toDot_eq ▸ hs⟩
  · obtain ⟨xs, hid, hs⟩ := spells_ident hx
    obtain ⟨ys, hid', hs'⟩ := spells_ident hy
    rw [(v.canonical _ hx).toDot_eq] at hs
    rw [(v.canonical _ hy).toDot_eq] at hs'
    refine ⟨xs ++ .symbol .colon :: ys, .compass hid hid', ?_⟩
    have := (hs.append delimits_colon spells_colon).append_word hs'
    rwa [List.append_assoc] at this

lemma spells_anchored {name : Ident} {anchor : Option String} (hn : v.ident name)
    (ha : ∀ text ∈ anchor, IsAnchorText v.ident text) : ∃ xs ys, IsIdent xs name ∧
      IsAnchor ys anchor ∧ SpellsWord v (Printer.anchored name.toDot anchor) (xs ++ ys) := by
  obtain ⟨xs, hid, hs⟩ := spells_ident hn
  cases anchor with
  | none => exact ⟨xs, [], hid, .none, by rwa [List.append_nil]⟩
  | some text =>
    obtain ⟨ys, hanchor, hs'⟩ := spells_anchor (ha text rfl)
    refine ⟨xs, _, hid, hanchor, ?_⟩
    have := (hs.append delimits_colon spells_colon).append_word hs'
    rwa [List.append_assoc] at this

lemma spells_item {e : Item} (hn : v.ident e.1) (hv : ∀ value ∈ e.2.ident?, v.ident value) :
    ∃ xs, IsItem xs e ∧ SpellsWord v (Printer.item e) xs := by
  obtain ⟨name, value⟩ := e
  obtain ⟨xs, hid, hs⟩ := spells_ident hn
  cases value with
  | implicit => exact ⟨xs, .implicit hid, hs⟩
  | text value =>
    obtain ⟨ys, hid', hs'⟩ := spells_ident (hv value rfl)
    refine ⟨xs ++ .symbol .equals :: ys, .text hid hid', ?_⟩
    have := (hs.append delimits_equals spells_equals).append_word hs'
    rwa [List.append_assoc] at this

/-! ### Bracketed lists -/

namespace Printer

/-- A layout that can be read: items are kept apart by ASCII blanks, commas and semicolons, and
lines are indented by blanks. -/
structure IsReadable (p : Printer) : Prop where
  separator_ne : p.separator ≠ ""
  separator : ∀ c ∈ p.separator.toList, c ∈ [' ', '\t', '\n', '\x0B', '\x0C', '\r', ',', ';']
  indent : ∀ c ∈ p.indent.toList, Text.isBlank c = true

/-- A readable layout whose indent consists of blanks of the vocabulary. -/
structure Fits (p : Printer) (v : Vocabulary) : Prop extends p.IsReadable where
  indent_mem : ∀ c ∈ p.indent.toList, c.toNat < 0x80 ∨ c ∈ v.blanks

lemma isReadable_default : IsReadable {} := by
  have hseparator : ({} : Printer).separator.toList = [',', ' '] := rfl
  refine ⟨by decide, ?_, by simp⟩
  rw [hseparator]
  simp

lemma mem_ordered {p : Printer} {a : Attributes} {e : Item} (h : e ∈ p.ordered a) :
    e ∈ a.entries := by
  unfold ordered at h
  split at h
  · exact List.mem_mergeSort.1 h
  · exact h

lemma ordered_eq_nil_iff {p : Printer} {a : Attributes} :
    p.ordered a = [] ↔ a.isEmpty = true := by
  rw [Attributes.isEmpty, List.isEmpty_iff, ordered]
  split
  · rw [← List.length_eq_zero_iff, List.length_mergeSort, List.length_eq_zero_iff]
  · rfl

end Printer

/-- A separator reads as commas and semicolons, which a list passes over. -/
lemma spells_separator {cs : List Char}
    (h : ∀ c ∈ cs, c ∈ [' ', '\t', '\n', '\x0B', '\x0C', '\r', ',', ';']) :
    ∃ xs, (∀ ds ys, LaidOut v ds ys → LaidOut v (cs ++ ds) (xs ++ ys)) ∧
      ∀ ys items, IsItems ys items → IsItems (xs ++ ys) items := by
  induction cs with
  | nil => exact ⟨[], fun _ _ hr => hr, fun _ _ hi => hi⟩
  | cons c cs ih =>
    obtain ⟨xs, hr, hi⟩ := ih fun d hd => h d (by simp [hd])
    by_cases hcomma : c = ','
    · subst hcomma
      exact ⟨.symbol .comma :: xs, fun ds ys hd => .symbol rfl (by simp) (hr ds ys hd),
        fun ys items hy => .comma (hi ys items hy)⟩
    by_cases hsemi : c = ';'
    · subst hsemi
      exact ⟨.symbol .semicolon :: xs, fun ds ys hd => .symbol rfl (by simp) (hr ds ys hd),
        fun ys items hy => .semicolon (hi ys items hy)⟩
    · have hb : Text.isBlank c = true ∧ c.toNat < 0x80 := by
        have := h c (by simp)
        simp only [List.mem_cons, hcomma, hsemi, List.not_mem_nil, or_false] at this
        rcases this with rfl | rfl | rfl | rfl | rfl | rfl <;> decide
      exact ⟨xs, fun ds ys hd => .blank hb.1 (.inl hb.2) (hr ds ys hd), hi⟩

lemma delimits_separator {p : Printer} (hp : p.IsReadable) : Delimits p.separator := by
  cases ht : p.separator.toList with
  | nil => exact absurd (String.toList_inj.1 ht) hp.separator_ne
  | cons c cs =>
    have := hp.separator c (by simp [ht])
    simp only [List.mem_cons, List.not_mem_nil, or_false] at this
    rcases this with rfl | rfl | rfl | rfl | rfl | rfl | rfl | rfl <;>
      exact delimits_of_toList ht rfl (by decide)

lemma spells_items {p : Printer} (hp : p.IsReadable) {items : List Item}
    (h : ∀ e ∈ items, v.ident e.1 ∧ ∀ value ∈ e.2.ident?, v.ident value) :
    ∃ xs, IsItems xs items ∧
      SpellsWord v (String.intercalate p.separator (items.map Printer.item)) xs := by
  induction items with
  | nil => exact ⟨[], .nil, spells_empty.spellsWord⟩
  | cons e items ih =>
    obtain ⟨xs, hitem, hs⟩ := spells_item (h e (by simp)).1 (h e (by simp)).2
    obtain ⟨ys, hitems, hs'⟩ := ih fun f hf => h f (by simp [hf])
    cases items with
    | nil =>
      refine ⟨xs ++ [], .cons hitem .nil, ?_⟩
      rw [List.append_nil, List.map_singleton, String.intercalate_singleton]
      exact hs
    | cons f items =>
      obtain ⟨zs, hr, hi⟩ := spells_separator hp.separator
      refine ⟨xs ++ (zs ++ ys), .cons hitem (hi ys _ hitems), ?_⟩
      rw [List.map_cons, List.map_cons, String.intercalate_cons_cons, ← List.append_assoc]
      exact (hs.append (delimits_separator hp) hr).append_word hs'

/-- A list in brackets is laid out as any items whose texts are those in the brackets. -/
lemma spells_bracketed {p : Printer} (hp : p.IsReadable) {a : Attributes} {items : List Item}
    (h : ∀ e ∈ items, v.ident e.1 ∧ ∀ value ∈ e.2.ident?, v.ident value)
    (ht : (p.ordered a).map Printer.item = items.map Printer.item) : ∃ xs, IsItems xs items ∧
      Spells v (p.attributeList a) (.symbol .openBracket :: (xs ++ [.symbol .closeBracket])) := by
  obtain ⟨xs, hitems, hs⟩ := spells_items hp h
  refine ⟨xs, hitems, ?_⟩
  have hopen : Spells v "[" [.symbol .openBracket] := spells_symbol rfl rfl (by simp)
  rw [Printer.attributeList, ht]
  exact (hopen.append_word hs).append (delimits_of_toList rfl rfl (by decide))
    (spells_symbol rfl rfl (by simp))

end DotGraph
