import DotGraph.Proofs.BuiltGraph
import Mathlib

/-!
# Adjacency matrices

A node is known by its number, whatever the stem of the names is made of: the number stands behind
it as it is, also where the name is quoted. The graph of a matrix has one edge for each place
that is read and differs from zero, row by row, so that it tells exactly which places those are.
-/

namespace DotGraph

/-! ### Numbers in names -/

namespace Ident

/-- A text that escaping leaves as it is, wherever it stands. -/
structure IsLabel (text : String) : Prop where
  ne_nil : text.toList ≠ []
  plain : ∀ c ∈ text.toList, c ≠ '"' ∧ c ≠ '\n' ∧ c ≠ '\\'

/-- Plain characters stay as they are, also behind a backslash that is open. -/
lemma escape_plain (escaping : Bool) {cs : List Char} (hne : cs ≠ [])
    (h : ∀ c ∈ cs, c ≠ '"' ∧ c ≠ '\n' ∧ c ≠ '\\') : escape escaping cs = cs := by
  induction cs generalizing escaping with
  | nil => exact absurd rfl hne
  | cons c cs ih =>
    obtain ⟨hfirst, hrest⟩ := List.forall_mem_cons.1 h
    have hopens : (c == '\\') = false := by simpa using hfirst.2.2
    have hescape : escape escaping (c :: cs) = c :: escape false cs := by
      simp [escape, hfirst, hopens]
    rw [hescape]
    cases cs with
    | nil => rfl
    | cons d cs => rw [ih false (by simp) hrest]

lemma isLabel_nat (n : Nat) : IsLabel (toString n) := by
  have hdigits : (toString n).toList = Nat.toDigits 10 n := Nat.toList_repr
  refine ⟨hdigits ▸ Nat.toDigits_ne_nil, ?_⟩
  intro c hc
  rw [hdigits] at hc
  have hdigit := Nat.isDigit_of_mem_toDigits (by decide) (by decide) hc
  refine ⟨?_, ?_, ?_⟩ <;> (rintro rfl; exact absurd hdigit (by decide))

lemma isLabel_int (n : Int) : IsLabel (toString n) := by
  rw [Int.toString_eq_repr, Int.repr_eq_if]
  split_ifs
  · exact isLabel_nat n.toNat
  · refine ⟨by simp, ?_⟩
    intro c hc
    rw [String.toList_append, List.mem_append] at hc
    rcases hc with hsign | hdigit
    · obtain rfl : c = '-' := by simpa using hsign
      decide
    · exact (isLabel_nat (-n).toNat).plain c hdigit

/-- Behind the same text, what is escaped to the same is escaped to the same by itself. -/
lemma escape_append_cancel {escaping : Bool} {stem as bs : List Char}
    (h : escape escaping (stem ++ as) = escape escaping (stem ++ bs)) :
    ∃ left, escape left as = escape left bs := by
  induction stem generalizing escaping with
  | nil => exact ⟨escaping, h⟩
  | cons c stem ih =>
    rw [List.cons_append, List.cons_append, escape, escape] at h
    split_ifs at h
    · exact ih (List.cons.inj (List.cons.inj h).2).2
    · exact ih (List.cons.inj (List.cons.inj h).2).2
    · exact ih (List.cons.inj h).2

/-- A bare word does not start with a quote. -/
lemma ne_quote_of_isBare {x : Ident} (h : x.isBare = true) (text : String) : x ≠ quote text := by
  rintro rfl
  have hquoted : (quote text).text.toList = '"' :: (escape false text.toList ++ ['"']) := by
    rw [quote, String.toList_ofList]
  rw [isBare, Bool.or_eq_true] at h
  rcases h with hname | hnumeral
  · rw [hquoted, isNameText, Bool.and_eq_true] at hname
    exact absurd hname.1 (by decide)
  · exact absurd (((isWord_of_isNumeral hnumeral).kind_of_head hquoted).1 rfl) (by decide)

end Ident

namespace Graph

variable {stem : String} {directed : Bool}

/-- Nodes of different labels have different names, whatever their stem is. -/
lemma nodeIdent_eq_iff {a b : String} (ha : Ident.IsLabel a) (hb : Ident.IsLabel b) :
    nodeIdent stem a = nodeIdent stem b ↔ a = b := by
  refine ⟨fun h => ?_, fun h => h ▸ rfl⟩
  rw [← String.toList_inj]
  rw [nodeIdent, nodeIdent, Ident.quotedIfNeeded, Ident.quotedIfNeeded] at h
  split_ifs at h with hi hj hj
  · have hlist := congrArg (fun x : Ident => x.text.toList) h
    rw [String.toList_append, String.toList_append] at hlist
    exact List.append_cancel_left hlist
  · exact absurd h (Ident.ne_quote_of_isBare (Bool.and_eq_true_iff.1 hi).1 _)
  · exact absurd h.symm (Ident.ne_quote_of_isBare (Bool.and_eq_true_iff.1 hj).1 _)
  · rw [Ident.quote, Ident.quote, String.toList_append, String.toList_append] at h
    obtain ⟨left, hleft⟩ := Ident.escape_append_cancel (List.append_cancel_right
      (List.cons.inj (String.ofList_inj.1 (Ident.mk.inj h))).2)
    rwa [Ident.escape_plain left ha.ne_nil ha.plain, Ident.escape_plain left hb.ne_nil hb.plain]
      at hleft

lemma labelEdge_eq_iff {a b c d : String} (ha : Ident.IsLabel a) (hb : Ident.IsLabel b)
    (hc : Ident.IsLabel c) (hd : Ident.IsLabel d) :
    labelEdge stem a b = labelEdge stem c d ↔ a = c ∧ b = d := by
  simp only [labelEdge, Edge.mk.injEq, Endpoint.node.injEq, nodeIdent_eq_iff ha hc,
    nodeIdent_eq_iff hb hd, and_true]

/-- Nodes of different numbers have different names. -/
lemma nodeIdent_inj_iff {i j : Nat} :
    nodeIdent stem (toString i) = nodeIdent stem (toString j) ↔ i = j :=
  (nodeIdent_eq_iff (Ident.isLabel_nat i) (Ident.isLabel_nat j)).trans Nat.repr_inj

/-- The edge between the nodes of two numbers. -/
def numberedEdge (stem : String) (i j : Nat) : Edge := labelEdge stem (toString i) (toString j)

lemma numberedEdge_inj_iff {i j k l : Nat} :
    numberedEdge stem i j = numberedEdge stem k l ↔ i = k ∧ j = l :=
  (labelEdge_eq_iff (Ident.isLabel_nat i) (Ident.isLabel_nat j) (Ident.isLabel_nat k)
    (Ident.isLabel_nat l)).trans (and_congr Nat.repr_inj Nat.repr_inj)

/-! ### Places of a matrix -/

variable {α : Type*} {rows : List (List α)}

lemma mem_cells_iff {i j : Nat} {cell : α} :
    ((i, j), cell) ∈ cells rows ↔ ∃ row, rows[i]? = some row ∧ row[j]? = some cell := by
  simp [cells, List.mem_zipIdx_iff_getElem?]

lemma pairwise_zipIdx {β : Type*} (bs : List β) : bs.zipIdx.Pairwise fun a b => a.2 < b.2 := by
  rw [← List.pairwise_map (f := Prod.snd) (R := (· < ·)), List.zipIdx_map_snd]
  exact List.pairwise_lt_range'

/-- Rows stand one after the other, and so do the cells of each. -/
lemma pairwise_cells (rows : List (List α)) :
    (cells rows).Pairwise fun a b => Prod.Lex (· < ·) (· < ·) a.1 b.1 := by
  rw [cells, List.pairwise_flatMap]
  constructor
  · rintro ⟨row, i⟩ -
    rw [List.pairwise_map]
    refine (pairwise_zipIdx row).imp ?_
    intro a b hj
    exact Prod.Lex.right i hj
  · refine (pairwise_zipIdx rows).imp ?_
    rintro ⟨row, i⟩ ⟨row', i'⟩ hi a ha b hb
    obtain ⟨c, -, rfl⟩ := List.mem_map.1 ha
    obtain ⟨d, -, rfl⟩ := List.mem_map.1 hb
    exact Prod.Lex.left _ _ hi

/-- The region of a matrix that is read: all of it, or the diagonal and what is right of it. -/
def IsReadAt (directed : Bool) (i j : Nat) : Prop := directed = true ∨ i ≤ j

section Zero

variable [BEq α] (zero : α)

/-- The matrix has a cell at this place, and it differs from zero. -/
def IsNonzeroAt (rows : List (List α)) (i j : Nat) : Prop :=
  ∃ row, rows[i]? = some row ∧ ∃ cell, row[j]? = some cell ∧ (cell != zero) = true

/-- The places at which edges are drawn. -/
def places (rows : List (List α)) (directed : Bool) : List (Nat × Nat) :=
  ((cells rows).filter fun e => (directed || e.1.1 ≤ e.1.2) && e.2 != zero).map Prod.fst

variable {zero}

lemma mem_places_iff {i j : Nat} :
    (i, j) ∈ places zero rows directed ↔ IsReadAt directed i j ∧ IsNonzeroAt zero rows i j := by
  simp only [places, List.mem_map, List.mem_filter]
  constructor
  · rintro ⟨⟨place, cell⟩, ⟨hcell, hchosen⟩, rfl⟩
    obtain ⟨row, hrow, hcell⟩ := mem_cells_iff.1 hcell
    obtain ⟨hread, hset⟩ := Bool.and_eq_true_iff.1 hchosen
    exact ⟨by simpa [IsReadAt] using hread, row, hrow, cell, hcell, hset⟩
  · rintro ⟨hread, row, hrow, cell, hcell, hset⟩
    refine ⟨((i, j), cell), ⟨mem_cells_iff.2 ⟨row, hrow, hcell⟩, ?_⟩, rfl⟩
    exact Bool.and_eq_true_iff.2 ⟨by simpa [IsReadAt] using hread, hset⟩

lemma pairwise_places (zero : α) (rows : List (List α)) (directed : Bool) :
    (places zero rows directed).Pairwise (Prod.Lex (· < ·) (· < ·)) := by
  rw [places, List.pairwise_map]
  exact (pairwise_cells rows).filter _

/-! ### Edges of a matrix -/

lemma edges_ofEdges (edges : List Edge) : (ofEdges directed edges).body.edges = edges := by
  rw [ofEdges_eq, Subgraph.edges]
  simp [Subgraph.extend, Subgraph.empty, List.filterMap_map, Statement.edge?, Function.comp_def]

lemma ofEdges_inj_iff {edges edges' : List Edge} :
    ofEdges directed edges = ofEdges directed edges' ↔ edges = edges' := by
  refine ⟨fun h => ?_, fun h => h ▸ rfl⟩
  rw [← edges_ofEdges edges, h, edges_ofEdges]

/-- The edge of a place. Rows and columns are counted from one in names. -/
def placeEdge (stem : String) (place : Nat × Nat) : Edge :=
  numberedEdge stem (place.1 + 1) (place.2 + 1)

lemma placeEdge_injective : Function.Injective (placeEdge stem) := by
  intro place place' h
  obtain ⟨hrow, hcolumn⟩ := numberedEdge_inj_iff.1 h
  exact Prod.ext (Nat.succ_injective hrow) (Nat.succ_injective hcolumn)

lemma ofAdjacency_eq (zero : α) (rows : List (List α)) (stem : String) (directed : Bool) :
    ofAdjacency zero rows stem directed =
      ofEdges directed ((places zero rows directed).map (placeEdge stem)) := by
  rw [ofAdjacency, places, List.map_map]
  rfl

/-- Places in order are determined by which they are. -/
lemma places_eq_iff {rows' : List (List α)} :
    places zero rows directed = places zero rows' directed ↔
      ∀ i j, IsReadAt directed i j → (IsNonzeroAt zero rows i j ↔ IsNonzeroAt zero rows' i j) := by
  constructor
  · intro h i j hread
    have hmem : (i, j) ∈ places zero rows directed ↔ (i, j) ∈ places zero rows' directed := by
      rw [h]
    simpa [mem_places_iff, hread] using hmem
  · intro h
    apply (pairwise_places zero rows directed).eq_of_mem_iff (pairwise_places zero rows' directed)
    rintro ⟨i, j⟩
    rw [mem_places_iff, mem_places_iff]
    exact and_congr_right (h i j)

/-- The edges of a matrix are drawn row by row, one at each place that is read and set, and no two
are the same, because numbers make different names. So the graph tells which places are set where
the matrix is read, and nothing else. -/
theorem ofAdjacency_places (zero : α) (rows : List (List α)) (stem : String) (directed : Bool) :
    (∃ drawn : List (Nat × Nat), drawn.Pairwise (Prod.Lex (· < ·) (· < ·)) ∧
      (∀ i j, (i, j) ∈ drawn ↔ IsReadAt directed i j ∧ IsNonzeroAt zero rows i j) ∧
      (ofAdjacency zero rows stem directed).body.statements =
        drawn.map fun place => .edge (numberedEdge stem (place.1 + 1) (place.2 + 1))) ∧
    (ofAdjacency zero rows stem directed).body.edges.Nodup ∧
    (∀ i j : Nat, nodeIdent stem (toString i) = nodeIdent stem (toString j) ↔ i = j) ∧
    ∀ rows' : List (List α),
      ofAdjacency zero rows stem directed = ofAdjacency zero rows' stem directed ↔
        ∀ i j, IsReadAt directed i j →
          (IsNonzeroAt zero rows i j ↔ IsNonzeroAt zero rows' i j) := by
  refine ⟨⟨places zero rows directed, pairwise_places zero rows directed,
    fun i j => mem_places_iff, ?_⟩, ?_, fun i j => nodeIdent_inj_iff, fun rows' => ?_⟩
  · rw [ofAdjacency_eq, ofEdges_eq, List.map_map]
    rfl
  · rw [ofAdjacency_eq, edges_ofEdges]
    exact (pairwise_places zero rows directed).nodup.map placeEdge_injective
  · rw [ofAdjacency_eq, ofAdjacency_eq, ofEdges_inj_iff,
      (List.map_injective_iff.2 placeEdge_injective).eq_iff, places_eq_iff]

end Zero

end Graph

end DotGraph
