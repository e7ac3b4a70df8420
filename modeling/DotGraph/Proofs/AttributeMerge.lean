import DotGraph.Attributes
import Mathlib.Tactic.Common

/-!
# Merging attribute stores

A store is determined by the order of its names and by the value of each. Merging appends the
names that are new and takes all values from the right, so it is an idempotent monoid. Items of a
list are not merged: one that is repeated stands where it was last.
-/

namespace DotGraph

namespace Keyed

variable {κ : Type u} {α : Type v} [DecidableEq κ]

lemma find?_eq_none_iff {k : κ} {l : List (κ × α)} : find? k l = none ↔ k ∉ keys l := by
  induction l with
  | nil => simp [find?, keys]
  | cons e l ih =>
    obtain ⟨k', v⟩ := e
    by_cases h : k' = k
    · simp [find?, keys, h]
    · rw [find?, if_neg h, ih]
      simp [keys, Ne.symm h]

lemma put_of_notMem {k : κ} {l : List (κ × α)} (h : k ∉ keys l) (v : α) :
    put k v l = l ++ [(k, v)] := by
  induction l with
  | nil => rfl
  | cons e l ih =>
    obtain ⟨k', v'⟩ := e
    simp only [keys, List.map_cons, List.mem_cons, not_or] at h
    rw [put, if_neg (Ne.symm h.1), ih h.2, List.cons_append]

/-- Values may be set in any order, as long as one of the keys has its place already. -/
lemma put_comm {k k' : κ} (hne : k ≠ k') {l : List (κ × α)} (hk : k ∈ keys l) (v v' : α) :
    put k v (put k' v' l) = put k' v' (put k v l) := by
  induction l with
  | nil => simp [keys] at hk
  | cons e l ih =>
    obtain ⟨k₀, v₀⟩ := e
    by_cases h : k₀ = k
    · subst h
      simp [put, hne]
    · have hkl : k ∈ keys l := by
        simpa [keys, Ne.symm h] using hk
      by_cases h' : k₀ = k'
      · subst h'
        simp [put, h]
      · simp [put, h, h', ih hkl]

/-- The entries whose key no later entry has, in their order. -/
def lastEntries : List (κ × α) → List (κ × α)
  | [] => []
  | e :: later => if e.1 ∈ keys later then lastEntries later else e :: lastEntries later

lemma lastEntries_of_nodup {l : List (κ × α)} (h : (keys l).Nodup) : lastEntries l = l := by
  induction l with
  | nil => rfl
  | cons e l ih =>
    obtain ⟨hnew, hl⟩ : e.1 ∉ keys l ∧ (keys l).Nodup := by simpa [keys] using h
    rw [lastEntries, if_neg hnew, ih hl]

/-- Lists with the same distinct keys in the same order and the same values are equal. -/
theorem ext_find? {l l' : List (κ × α)} (hk : keys l = keys l') (hd : (keys l).Nodup)
    (hf : ∀ k, find? k l = find? k l') : l = l' := by
  induction l generalizing l' with
  | nil =>
    have : keys l' = [] := hk.symm
    exact (List.map_eq_nil_iff.1 this).symm
  | cons e l ih =>
    cases l' with
    | nil => simp [keys] at hk
    | cons e' l' =>
      obtain ⟨k, v⟩ := e
      obtain ⟨k', v'⟩ := e'
      obtain ⟨rfl, htail⟩ : k = k' ∧ keys l = keys l' := by simpa [keys] using hk
      obtain ⟨hnew, hdl⟩ : k ∉ keys l ∧ (keys l).Nodup := by simpa [keys] using hd
      have hv : v = v' := by simpa [find?] using hf k
      have hl : l = l' := by
        apply ih htail hdl
        intro k''
        by_cases h : k = k''
        · subst h
          rw [find?_eq_none_iff.2 hnew, find?_eq_none_iff.2 (htail ▸ hnew)]
        · simpa [find?, h] using hf k''
      rw [hv, hl]

end Keyed

namespace Attributes

theorem ext_get? {a b : Attributes} (hn : a.names = b.names) (hg : ∀ k, a.get? k = b.get? k) :
    a = b :=
  Attributes.ext (Keyed.ext_find? hn a.nodup_keys hg)

@[simp] lemma names_empty : empty.names = [] := rfl

@[simp] lemma get?_empty (k : Ident) : empty.get? k = none := rfl

lemma names_set (a : Attributes) (k : Ident) (v : AttrValue) :
    (a.set k v).names = if k ∈ a.names then a.names else a.names ++ [k] :=
  Keyed.keys_put k v a.entries

lemma get?_set (a : Attributes) (k k' : Ident) (v : AttrValue) :
    (a.set k v).get? k' = if k = k' then some v else a.get? k' := by
  by_cases h : k = k'
  · subst h
    rw [if_pos rfl]
    exact Keyed.find?_put_self k v a.entries
  · rw [if_neg h]
    exact Keyed.find?_put_of_ne h v a.entries

lemma entries_set_of_notMem {a : Attributes} {k : Ident} (h : k ∉ a.names) (v : AttrValue) :
    (a.set k v).entries = a.entries ++ [(k, v)] :=
  Keyed.put_of_notMem h v

section SetAll

variable (a : Attributes) (l : List (Ident × AttrValue))

lemma names_foldl_set (h : (Keyed.keys l).Nodup) :
    (l.foldl (fun acc e => acc.set e.1 e.2) a).names =
      a.names ++ (Keyed.keys l).filter (· ∉ a.names) := by
  induction l generalizing a with
  | nil => simp [Keyed.keys]
  | cons e l ih =>
    obtain ⟨hnew, hl⟩ : e.1 ∉ Keyed.keys l ∧ (Keyed.keys l).Nodup := by
      simpa [Keyed.keys] using h
    rw [List.foldl_cons, ih _ hl, names_set]
    by_cases he : e.1 ∈ a.names
    · simp [he, Keyed.keys]
    · -- the names that come later differ from the one just appended
      have hfilter : (Keyed.keys l).filter (· ∉ a.names ++ [e.1]) =
          (Keyed.keys l).filter (· ∉ a.names) := by
        apply List.filter_congr
        intro k hk
        have hke : k ≠ e.1 := fun h => hnew (h ▸ hk)
        simp [hke]
      simp only [he, if_false, hfilter]
      simp [Keyed.keys, he]

lemma get?_foldl_set (h : (Keyed.keys l).Nodup) (k : Ident) :
    (l.foldl (fun acc e => acc.set e.1 e.2) a).get? k = (Keyed.find? k l).or (a.get? k) := by
  induction l generalizing a with
  | nil => simp [Keyed.find?]
  | cons e l ih =>
    obtain ⟨hnew, hl⟩ : e.1 ∉ Keyed.keys l ∧ (Keyed.keys l).Nodup := by
      simpa [Keyed.keys] using h
    rw [List.foldl_cons, ih _ hl, get?_set, Keyed.find?]
    by_cases he : e.1 = k
    · subst he
      simp [Keyed.find?_eq_none_iff.2 hnew]
    · simp [he]

end SetAll

theorem names_merge (a b : Attributes) :
    (a.merge b).names = a.names ++ b.names.filter (· ∉ a.names) :=
  names_foldl_set a b.entries b.nodup_keys

theorem get?_merge (a b : Attributes) (k : Ident) :
    (a.merge b).get? k = (b.get? k).or (a.get? k) :=
  get?_foldl_set a b.entries b.nodup_keys k

@[simp] theorem merge_empty (a : Attributes) : a.merge empty = a := rfl

@[simp] theorem empty_merge (a : Attributes) : empty.merge a = a := by
  refine ext_get? ?_ fun k => ?_
  · simp [names_merge]
  · simp [get?_merge]

theorem merge_self (a : Attributes) : a.merge a = a := by
  refine ext_get? ?_ fun k => ?_
  · simp [names_merge]
  · rw [get?_merge, Option.or_self]

theorem merge_assoc (a b c : Attributes) : (a.merge b).merge c = a.merge (b.merge c) := by
  refine ext_get? ?_ fun k => ?_
  · simp only [names_merge, List.filter_append, List.append_assoc, List.filter_filter,
      List.mem_append, List.mem_filter]
    congr 2
    apply List.filter_congr
    intro k _
    by_cases ha : k ∈ a.names <;> by_cases hb : k ∈ b.names <;> simp [ha, hb]
  · simp only [get?_merge, Option.or_assoc]

/-! ### Stores of bracketed lists -/

lemma entries_set_erase (a : Attributes) (k : Ident) (v : AttrValue) :
    ((a.erase k).set k v).entries = a.entries.filter (fun e => e.1 ≠ k) ++ [(k, v)] := by
  apply entries_set_of_notMem
  intro hmem
  obtain ⟨e, he, rfl⟩ := List.mem_map.1 hmem
  simpa using (List.mem_filter.1 he).2

/-- Each item drops what stands there under its name and is appended. -/
lemma entries_foldl_items (items : List (Ident × AttrValue)) (a : Attributes) :
    (items.foldl (fun acc e => (acc.erase e.1).set e.1 e.2) a).entries =
      a.entries.filter (fun e => e.1 ∉ Keyed.keys items) ++ Keyed.lastEntries items := by
  induction items generalizing a with
  | nil =>
    have hall : a.entries.filter (fun e => e.1 ∉ Keyed.keys ([] : List (Ident × AttrValue))) =
        a.entries := List.filter_eq_self.2 (by simp [Keyed.keys])
    rw [hall, Keyed.lastEntries, List.append_nil, List.foldl_nil]
  | cons e items ih =>
    have hkeys : a.entries.filter (fun e' => e'.1 ∉ Keyed.keys (e :: items)) =
        (a.entries.filter fun e' => e'.1 ≠ e.1).filter fun e' => e'.1 ∉ Keyed.keys items := by
      rw [List.filter_filter]
      apply List.filter_congr
      intro e' _
      have hmem : e'.1 ∈ Keyed.keys (e :: items) ↔ e'.1 = e.1 ∨ e'.1 ∈ Keyed.keys items :=
        List.mem_cons
      simp [hmem, Bool.and_comm]
    rw [List.foldl_cons, ih, entries_set_erase, List.filter_append, List.append_assoc, hkeys,
      Keyed.lastEntries]
    by_cases he : e.1 ∈ Keyed.keys items <;> simp [he]

/-- Of items with the same name the last one counts, where it stands. -/
theorem entries_ofItems (items : List (Ident × AttrValue)) :
    (ofItems items).entries = Keyed.lastEntries items :=
  entries_foldl_items items empty

example : (ofItems [(⟨"a"⟩, .text ⟨"1"⟩), (⟨"b"⟩, .implicit), (⟨"a"⟩, .implicit)]).entries =
    [(⟨"b"⟩, .implicit), (⟨"a"⟩, .implicit)] := by
  decide +kernel

/-- A list of items with distinct names is a store as it stands. -/
theorem ofItems_entries (a : Attributes) : ofItems a.entries = a :=
  Attributes.ext ((entries_ofItems a.entries).trans (Keyed.lastEntries_of_nodup a.nodup_keys))

/-! ### The laws of merging -/

/-- The stores that the operations make of the empty one. -/
inductive IsBuilt : Attributes → Prop
  | empty : IsBuilt empty
  | set {a : Attributes} (h : IsBuilt a) (name value : Ident) : IsBuilt (a.set name (.text value))
  | setImplicit {a : Attributes} (h : IsBuilt a) (name : Ident) : IsBuilt (a.set name .implicit)
  | erase {a : Attributes} (h : IsBuilt a) (name : Ident) : IsBuilt (a.erase name)
  | merge {a b : Attributes} (ha : IsBuilt a) (hb : IsBuilt b) : IsBuilt (a.merge b)
  | addStyle {a : Attributes} (h : IsBuilt a) (token : String) : IsBuilt (a.addStyle token)

lemma isBuilt_foldl_set {a : Attributes} (h : IsBuilt a) (l : List (Ident × AttrValue)) :
    IsBuilt (l.foldl (fun acc e => acc.set e.1 e.2) a) := by
  induction l generalizing a with
  | nil => exact h
  | cons e l ih =>
    obtain ⟨name, value⟩ := e
    cases value with
    | implicit => exact ih (h.setImplicit name)
    | text value => exact ih (h.set name value)

lemma isBuilt (a : Attributes) : IsBuilt a := by
  rw [← empty_merge a]
  exact isBuilt_foldl_set .empty a.entries

/-- Merging gives the right store just when it starts with the names of the left one. -/
lemma merge_eq_right_iff {a b : Attributes} : a.merge b = b ↔ a.names <+: b.names := by
  constructor
  · intro h
    exact ⟨_, (names_merge a b).symm.trans (congrArg names h)⟩
  · rintro ⟨more, hmore⟩
    have hd : (a.names ++ more).Nodup := hmore ▸ b.nodup_keys
    refine ext_get? ?_ fun k => ?_
    · have hfilter : (a.names ++ more).filter (· ∉ a.names) = more := by
        rw [List.filter_append, List.filter_eq_nil_iff.2 (by simp), List.nil_append,
          List.filter_eq_self]
        intro k hk
        simpa using fun ha => (List.nodup_append.1 hd).2.2 k ha k hk rfl
      rw [names_merge, ← hmore, hfilter]
    · rw [get?_merge]
      cases hb : b.get? k with
      | some v => rfl
      | none =>
        have hk : k ∉ a.names := by
          intro ha
          have hmem : k ∈ b.names := hmore ▸ List.mem_append_left more ha
          exact Keyed.find?_eq_none_iff.1 hb hmem
        exact Keyed.find?_eq_none_iff.2 hk

/-- The operations make every list of attributes with distinct names, and no other one. Merging
is associative and idempotent and the empty store is neutral on both sides. It gives the right
store just when that one starts with the names of the left one. -/
theorem merge_laws :
    (∀ entries, (∃ a, IsBuilt a ∧ a.entries = entries) ↔ (Keyed.keys entries).Nodup) ∧
      ∀ a b c : Attributes, (a.merge b).merge c = a.merge (b.merge c) ∧
        a.merge empty = a ∧ empty.merge a = a ∧ a.merge a = a ∧
        (a.merge b = b ↔ a.names <+: b.names) := by
  refine ⟨fun entries => ⟨?_, fun hd => ⟨⟨entries, hd⟩, isBuilt _, rfl⟩⟩, fun a b c =>
    ⟨merge_assoc a b c, merge_empty a, empty_merge a, merge_self a, merge_eq_right_iff⟩⟩
  rintro ⟨a, -, rfl⟩
  exact a.nodup_keys

end Attributes

end DotGraph
