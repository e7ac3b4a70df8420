import DotGraph.Proofs.PrintedText
import DotGraph.Proofs.WrittenIdent

/-!
# Plain names

Names made of ASCII letters, digits and underscores. Those that are keywords are quoted where they
are written, the others are written as they are: each is read as one canonical identifier. As the
name of a node, a keyword is written without quotes.
-/

namespace DotGraph

open Scan Grammar

namespace Ident

/-- ASCII letters, digits and underscores, no digit in front. Keywords are such names. -/
structure IsAsciiName (x : Ident) : Prop where
  name : isNameText x.text.toList = true
  ascii : ∀ c ∈ x.text.toList, c.toNat < 0x80

instance (x : Ident) : Decidable x.IsAsciiName :=
  decidable_of_iff (isNameText x.text.toList = true ∧ x.text.toList.all (·.toNat < 0x80) = true)
    ⟨fun h => ⟨h.1, by simpa using h.2⟩, fun h => ⟨h.name, by simpa using h.ascii⟩⟩

/-- The identifier that is read where `x` is written. -/
def written (x : Ident) : Ident := ⟨x.toDot⟩

namespace IsAsciiName

variable {x : Ident} (h : x.IsAsciiName)
include h

lemma isWord : IsWord .name x.text := by
  have hname := h.name
  have hascii := h.ascii
  cases ht : x.text.toList with
  | nil =>
    rw [ht, isNameText] at hname
    exact absurd hname Bool.false_ne_true
  | cons c cs =>
    rw [ht, isNameText, Bool.and_eq_true, List.all_eq_true] at hname
    have hword := isWord_name (not_isBlank_of_isNameStart hname.1 (hascii c (by simp [ht])))
      hname.1 hname.2
    rwa [← ht, String.ofList_toList] at hword

lemma isQuoted_eq_false : x.isQuoted = false := by
  rw [← Bool.not_eq_true]
  intro hq
  obtain ⟨body, ht⟩ := exists_body_of_isQuoted hq
  exact absurd ((h.isWord.kind_of_head ht).1 rfl) (by decide)

lemma isHtml_eq_false : x.isHtml = false := by
  rw [← Bool.not_eq_true]
  intro hh
  obtain ⟨body, ht⟩ := exists_body_of_isHtml hh
  exact absurd ((h.isWord.kind_of_head ht).2 rfl) (by decide)

/-- Where it is written, a plain name is canonical. -/
lemma isCanonical_written : x.written.IsCanonical := by
  rw [written]
  by_cases hk : x.isKeyword = true
  · rw [toDot_of_not_verbatim h.isQuoted_eq_false h.isHtml_eq_false fun _ => hk]
    exact isCanonical_quoted (isWord_quote x.text)
  · rw [Bool.not_eq_true] at hk
    have hbare : x.isBare = true := by rw [isBare, h.name, Bool.true_or]
    rw [toDot_of_verbatim (.inr (.inr ⟨hbare, hk⟩))]
    exact isCanonical_name h.isWord
      (Option.isNone_iff_eq_none.1 (Option.isSome_eq_false_iff.1 hk))

end IsAsciiName

lemma isCanonical_map_written {name : Option Ident} (h : ∀ x ∈ name, x.IsAsciiName) :
    ∀ x ∈ name.map written, x.IsCanonical := by
  intro x hx
  obtain ⟨y, hy, rfl⟩ := Option.map_eq_some_iff.1 hx
  exact (h y hy).isCanonical_written

end Ident

/-! ### Attributes -/

/-- The item that is read where `e` is written. -/
def writtenItem : Item → Item
  | (name, .text value) => (name.written, .text value.written)
  | (name, .implicit) => (name.written, .implicit)

section Items

variable {items : List Item}
  (h : ∀ e ∈ items, e.1.IsAsciiName ∧ ∀ value ∈ e.2.ident?, value.IsAsciiName)
include h

lemma isCanonical_writtenItem : ∀ e ∈ items.map writtenItem,
    e.1.IsCanonical ∧ ∀ value ∈ e.2.ident?, value.IsCanonical := by
  rintro e he
  obtain ⟨⟨name, value⟩, hmem, rfl⟩ := List.mem_map.1 he
  obtain ⟨hname, hvalue⟩ := h _ hmem
  cases value with
  | implicit => exact ⟨hname.isCanonical_written, fun _ hv => nomatch hv⟩
  | text value =>
    refine ⟨hname.isCanonical_written, fun y hy => ?_⟩
    cases hy
    exact (hvalue value rfl).isCanonical_written

/-- Written names and values are written as they are. -/
lemma map_writtenItem {f : Item → String}
    (hf : ∀ e : Item, (e.1.written.toDot = e.1.toDot) →
      (∀ value ∈ e.2.ident?, value.written.toDot = value.toDot) → f (writtenItem e) = f e) :
    items.map f = (items.map writtenItem).map f := by
  rw [List.map_map]
  refine List.map_congr_left fun e he => ?_
  obtain ⟨hname, hvalue⟩ := h e he
  exact (hf e hname.isCanonical_written.toDot_eq
    fun value hv => (hvalue value hv).isCanonical_written.toDot_eq).symm

lemma map_item_written :
    items.map Printer.item = (items.map writtenItem).map Printer.item := by
  apply map_writtenItem h
  rintro ⟨name, value⟩ hname hvalue
  cases value with
  | implicit => exact hname
  | text value =>
    show name.written.toDot ++ "=" ++ value.written.toDot = name.toDot ++ "=" ++ value.toDot
    rw [hname, hvalue value rfl]

lemma map_graphAttribute_written :
    items.map Printer.graphAttribute = (items.map writtenItem).map Printer.graphAttribute := by
  apply map_writtenItem h
  rintro ⟨name, value⟩ hname hvalue
  cases value with
  | implicit =>
    show "graph [" ++ name.written.toDot ++ "];" = "graph [" ++ name.toDot ++ "];"
    rw [hname]
  | text value =>
    show name.written.toDot ++ "=" ++ value.written.toDot ++ ";" =
      name.toDot ++ "=" ++ value.toDot ++ ";"
    rw [hname, hvalue value rfl]

end Items

end DotGraph
