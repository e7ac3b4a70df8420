import DotGraph.Printer
import DotGraph.Proofs.AttributeMerge
import DotGraph.Proofs.Containers

/-!
# Sorted attributes

A store in the order of its names. The order that the store had is lost, and nothing else: two
stores are sorted alike if and only if they give every name the same value.
-/

namespace DotGraph

namespace Keyed

variable {κ : Type u} {α : Type v} [DecidableEq κ]

lemma mem_iff_find? {l : List (κ × α)} (hd : (keys l).Nodup) {k : κ} {v : α} :
    (k, v) ∈ l ↔ find? k l = some v := by
  induction l with
  | nil => simp [find?]
  | cons e l ih =>
    obtain ⟨k', v'⟩ := e
    obtain ⟨hnew, hl⟩ : k' ∉ keys l ∧ (keys l).Nodup := by simpa [keys] using hd
    rw [List.mem_cons, ih hl, find?]
    by_cases hk : k' = k
    · subst hk
      rw [find?_eq_none_iff.2 hnew]
      simp [eq_comm]
    · simp [hk, Ne.symm hk]

end Keyed

namespace Attributes

/-- The attributes in the order of their names. -/
def sorted (a : Attributes) : Attributes where
  entries := a.entries.mergeSort fun e f => e.1.text ≤ f.1.text
  nodup_keys := ((a.entries.mergeSort_perm _).map Prod.fst).nodup_iff.2 a.nodup_keys

lemma nodup_entries (a : Attributes) : a.entries.Nodup :=
  List.Pairwise.of_map Prod.fst (fun _ _ hne heq => hne (congrArg Prod.fst heq)) a.nodup_keys

lemma mem_entries_iff {a : Attributes} {k : Ident} {v : AttrValue} :
    (k, v) ∈ a.entries ↔ a.get? k = some v :=
  Keyed.mem_iff_find? a.nodup_keys

@[simp] lemma get?_sorted (a : Attributes) (k : Ident) : a.sorted.get? k = a.get? k := by
  ext v
  rw [← mem_entries_iff, ← mem_entries_iff]
  exact List.mem_mergeSort

lemma pairwise_sorted (a : Attributes) :
    a.sorted.entries.Pairwise fun e f => e.1.text ≤ f.1.text := by
  have htrans (e f g : Ident × AttrValue) (hef : decide (e.1.text ≤ f.1.text))
      (hfg : decide (f.1.text ≤ g.1.text)) : decide (e.1.text ≤ g.1.text) :=
    decide_eq_true (String.le_trans (of_decide_eq_true hef) (of_decide_eq_true hfg))
  have htotal (e f : Ident × AttrValue) :
      decide (e.1.text ≤ f.1.text) || decide (f.1.text ≤ e.1.text) := by
    simpa using String.le_total e.1.text f.1.text
  exact (List.pairwise_mergeSort htrans htotal a.entries).imp of_decide_eq_true

/-- Sorted stores are determined by what they give each name. -/
theorem sorted_eq_sorted_iff {a b : Attributes} :
    a.sorted = b.sorted ↔ ∀ k, a.get? k = b.get? k := by
  constructor
  · intro h k
    rw [← a.get?_sorted, h, b.get?_sorted]
  · intro h
    apply Attributes.ext
    apply List.Perm.eq_of_pairwise ?_ a.pairwise_sorted b.pairwise_sorted ?_
    · rintro ⟨k, v⟩ ⟨k', v'⟩ ha hb hle hge
      rw [mem_entries_iff, get?_sorted] at ha hb
      obtain rfl : k = k' := Ident.eq_of_text (String.le_antisymm hle hge)
      rw [h, hb] at ha
      rw [Option.some_inj.1 ha]
    · refine (List.perm_ext_iff_of_nodup a.sorted.nodup_entries
        b.sorted.nodup_entries).2 ?_
      rintro ⟨k, v⟩
      rw [mem_entries_iff, mem_entries_iff, get?_sorted, get?_sorted, h]

lemma sorted_eq_of_perm {a b : Attributes} (h : a.entries.Perm b.entries) :
    a.sorted = b.sorted := by
  rw [sorted_eq_sorted_iff]
  intro k
  ext v
  rw [← mem_entries_iff, ← mem_entries_iff, h.mem_iff]

lemma sorted_of_pairwise {a : Attributes} (h : a.entries.Pairwise fun e f => e.1.text ≤ f.1.text) :
    a.sorted = a :=
  Attributes.ext (List.mergeSort_of_pairwise (h.imp decide_eq_true))

@[simp] lemma sorted_sorted (a : Attributes) : a.sorted.sorted = a.sorted :=
  sorted_of_pairwise a.pairwise_sorted

@[simp] lemma isEmpty_sorted (a : Attributes) : a.sorted.isEmpty = a.isEmpty :=
  (a.entries.mergeSort_perm _).isEmpty_eq

/-- The attributes of a store may be sorted before those of another are set in it, and behind. -/
lemma sorted_merge (a b : Attributes) : (a.sorted.merge b.sorted).sorted = (a.merge b).sorted := by
  rw [sorted_eq_sorted_iff]
  intro k
  rw [get?_merge, get?_merge, get?_sorted, get?_sorted]

end Attributes

/-- A printer that sorts writes the attributes of the sorted store. -/
lemma Printer.ordered_of_sorts {p : Printer} (hp : p.sortAttributes = true) (a : Attributes) :
    p.ordered a = a.sorted.entries := by
  rw [ordered, hp, if_pos rfl]
  rfl

end DotGraph
