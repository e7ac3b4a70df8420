import DotGraph.Proofs.AdjacencyMatrix

/-!
# Incidence matrices

Each row with two cells that differ from zero is one edge. Its nodes are numbered by the two
columns, each multiplied by the size of its cell, so that they are the nodes of the columns exactly
where both cells are one or minus one. Of a cell above zero and one below it, the one below is at
the source in any case. All this is said of rows whose products do not leave the 64 bits in which
they are reckoned. The least number of these is its own absolute value there, so that a product
equal to it numbers no node.
-/

namespace DotGraph.Graph

/-- Whether exactly two cells of a row differ from zero. -/
def joinsTwo (row : List Int64) : Bool := row.countP (· ≠ 0) = 2

/-- The edges that a row with two cells other than zero may stand for, where `number` numbers the
nodes by column and cell: it joins the nodes of the two cells, and where edges have a direction and
one of the cells is negative, the edge starts there. -/
def IsRowEdge (number : Nat → Int64 → Int) (stem : String) (directed : Bool) (row : List Int64)
    (e : Edge) : Prop :=
  ∃ i v j w, i ≠ j ∧ row[i]? = some v ∧ row[j]? = some w ∧ v ≠ 0 ∧ w ≠ 0 ∧
    (directed = true → w < 0 → v < 0) ∧
    e = labelEdge stem (toString (number i v)) (toString (number j w))

/-- The graph has one edge for each row with two cells other than zero, in the order of the rows,
and nothing else. -/
def IsIncidenceGraph (number : Nat → Int64 → Int) (rows : List (List Int64)) (stem : String)
    (directed : Bool) (g : Graph) : Prop :=
  ∃ edges : List Edge, g.body.statements = edges.map .edge ∧
    List.Forall₂ (IsRowEdge number stem directed) (rows.filter joinsTwo) edges

/-- A column, counted from one, times its cell. -/
def weight (e : Int64 × Nat) : Int := (e.2 + 1) * e.1.toInt

/-- The columns of a row are counted in 64 bits, and so are their products with the cells. -/
structure FitsWord (row : List Int64) : Prop where
  length : row.length ≤ Int64.maxValue.toInt
  weights : ∀ e ∈ row.zipIdx, Int64.minValue.toInt ≤ weight e ∧ weight e ≤ Int64.maxValue.toInt

instance (row : List Int64) : Decidable (FitsWord row) :=
  decidable_of_iff (row.length ≤ Int64.maxValue.toInt ∧ ∀ e ∈ row.zipIdx,
      Int64.minValue.toInt ≤ weight e ∧ weight e ≤ Int64.maxValue.toInt)
    ⟨fun h => ⟨h.1, h.2⟩, fun h => ⟨h.1, h.2⟩⟩

/-- The number of the node of a column, which is counted from one. -/
def columnNumber (column : Nat) (_ : Int64) : Int := column + 1

/-- The number of a column, multiplied by the size of the cell. -/
def weightedNumber (column : Nat) (cell : Int64) : Int := (weight (cell, column)).natAbs

variable {stem : String} {directed : Bool} {row : List Int64}

/-! ### Weights -/

/-- The cells of a row that differ from zero, with their columns. -/
def touched (row : List Int64) : List (Int64 × Nat) := row.zipIdx.filter (·.1 ≠ 0)

lemma mem_touched_iff {v : Int64} {i : Nat} : (v, i) ∈ touched row ↔ row[i]? = some v ∧ v ≠ 0 := by
  simp [touched, List.mem_zipIdx_iff_getElem?]

lemma FitsWord.weight_mem (h : FitsWord row) {v : Int64} {i : Nat} (hv : row[i]? = some v) :
    Int64.minValue.toInt ≤ weight (v, i) ∧ weight (v, i) ≤ Int64.maxValue.toInt :=
  h.weights _ (List.mem_zipIdx_iff_getElem?.2 hv)

lemma FitsWord.toInt_weight (h : FitsWord row) {v : Int64} {i : Nat} (hv : row[i]? = some v) :
    (Int64.ofInt (weight (v, i))).toInt = weight (v, i) := by
  obtain ⟨hmin, hmax⟩ := h.weight_mem hv
  rw [Int64.toInt_minValue] at hmin
  rw [Int64.toInt_maxValue] at hmax
  exact Int64.toInt_ofInt_of_le hmin (by omega)

lemma natAbs_weight (v : Int64) (i : Nat) :
    (weight (v, i)).natAbs = (i + 1) * v.toInt.natAbs := by
  rw [weight, Int.natAbs_mul]
  rfl

lemma weight_neg_iff (v : Int64) (i : Nat) : weight (v, i) < 0 ↔ v < 0 := by
  have hpos : (0 : Int) < i + 1 := by omega
  rw [Int64.lt_iff_toInt_lt, Int64.toInt_zero, weight]
  constructor
  · intro h
    by_contra hv
    exact Int.not_le.2 h (Int.mul_nonneg hpos.le (Int.not_lt.1 hv))
  · intro hv
    exact Int.mul_neg_of_pos_of_neg hpos hv

/-- The number that a product of 64 bits gives to its node. -/
def wordNumber (column : Nat) (cell : Int64) : Int :=
  (Int64.ofInt (weight (cell, column))).abs.toInt

/-- Only the least number of 64 bits has no absolute value there. -/
lemma toInt_abs {x : Int64} (h : x ≠ Int64.minValue) : x.abs.toInt = x.toInt.natAbs := by
  have hbits : x.toBitVec ≠ BitVec.intMin 64 := fun heq => h (Int64.toBitVec_inj.1 heq)
  exact BitVec.toInt_abs_eq_natAbs_of_ne_intMin hbits

lemma wordNumber_eq (h : FitsWord row) {v : Int64} {i : Nat} (hv : row[i]? = some v)
    (hne : Int64.ofInt (weight (v, i)) ≠ Int64.minValue) : wordNumber i v = weightedNumber i v := by
  rw [wordNumber, toInt_abs hne, h.toInt_weight hv, weightedNumber]

/-! ### Rows -/

lemma joinsTwo_iff : joinsTwo row = true ↔ (touched row).length = 2 := by
  have hlength : (touched row).length = row.countP (· ≠ 0) := by
    conv_rhs => rw [← List.zipIdx_map_fst 0 row, List.countP_map]
    rw [touched, List.countP_eq_length_filter]
    rfl
  rw [hlength, joinsTwo, decide_eq_true_iff]

/-- Products that wrap around are the products, wrapped around. -/
lemma rowEnds_eq (row : List Int64) :
    rowEnds row = ((touched row).map fun e => Int64.ofInt (weight e)).mergeSort := by
  have hweight (e : Int64 × Nat) : (Int64.ofNat e.2 + 1) * e.1 = Int64.ofInt (weight e) := by
    rw [weight, Int64.ofInt_mul, Int64.ofInt_add, Int64.ofInt_eq_ofNat, Int64.ofInt_toInt]
    rfl
  rw [rowEnds, touched]
  simp only [hweight]

lemma mergeSort_pair (a b : Int64) : [a, b].mergeSort = if a ≤ b then [a, b] else [b, a] := by
  simp [List.mergeSort, List.merge]

/-- The edge of a row, if it has one. -/
def rowEdge? (stem : String) (row : List Int64) : Option Edge :=
  match rowEnds row with
  | [a, b] => some (labelEdge stem (toString a.abs) (toString b.abs))
  | _ => none

lemma ofIncidence_eq (rows : List (List Int64)) (stem : String) (directed : Bool) :
    ofIncidence rows stem directed = ofEdges directed (rows.filterMap (rowEdge? stem)) := rfl

lemma rowEdge?_of_not_joinsTwo (h : ¬ joinsTwo row = true) : rowEdge? stem row = none := by
  have hlength : (rowEnds row).length ≠ 2 := by
    rw [rowEnds_eq, List.length_mergeSort, List.length_map]
    exact joinsTwo_iff.not.1 h
  unfold rowEdge?
  split
  · rename_i a b hends
    rw [hends] at hlength
    exact absurd rfl hlength
  · rfl

/-- The end of less weight is the source, so that a negative cell alone is there. -/
lemma isRowEdge_of_le {v w : Int64} {i j : Nat} (hv : (v, i) ∈ touched row)
    (hw : (w, j) ∈ touched row) (hij : i ≠ j) (hle : weight (v, i) ≤ weight (w, j)) :
    IsRowEdge wordNumber stem directed row
      (labelEdge stem (toString (wordNumber i v)) (toString (wordNumber j w))) := by
  obtain ⟨hv, hv0⟩ := mem_touched_iff.1 hv
  obtain ⟨hw, hw0⟩ := mem_touched_iff.1 hw
  refine ⟨i, v, j, w, hij, hv, hw, hv0, hw0, fun _ hneg => ?_, rfl⟩
  exact (weight_neg_iff v i).1 (Int.lt_of_le_of_lt hle ((weight_neg_iff w j).2 hneg))

lemma exists_rowEdge? (hfits : FitsWord row) (h : joinsTwo row = true) :
    ∃ e, rowEdge? stem row = some e ∧ IsRowEdge wordNumber stem directed row e := by
  obtain ⟨⟨v, i⟩, ⟨w, j⟩, htouched⟩ := List.length_eq_two.1 (joinsTwo_iff.1 h)
  have hv : (v, i) ∈ touched row := by simp [htouched]
  have hw : (w, j) ∈ touched row := by simp [htouched]
  have hij : i < j := by
    have hordered := (pairwise_zipIdx row).filter (·.1 ≠ 0)
    rw [← touched, htouched] at hordered
    exact List.rel_of_pairwise_cons hordered (List.mem_singleton_self _)
  have hends : rowEnds row = if Int64.ofInt (weight (v, i)) ≤ Int64.ofInt (weight (w, j)) then
      [Int64.ofInt (weight (v, i)), Int64.ofInt (weight (w, j))]
      else [Int64.ofInt (weight (w, j)), Int64.ofInt (weight (v, i))] := by
    rw [rowEnds_eq, htouched]
    exact mergeSort_pair _ _
  obtain ⟨hvmin, hvmax⟩ := hfits.weight_mem (mem_touched_iff.1 hv).1
  obtain ⟨hwmin, hwmax⟩ := hfits.weight_mem (mem_touched_iff.1 hw).1
  have hle_iff := Int64.ofInt_le_iff_le hvmin hvmax hwmin hwmax
  unfold rowEdge?
  rw [hends]
  split_ifs with hle
  · exact ⟨_, rfl, isRowEdge_of_le hv hw hij.ne (hle_iff.1 hle)⟩
  · exact ⟨_, rfl, isRowEdge_of_le hw hv hij.ne' (Int.not_le.1 (hle_iff.not.1 hle)).le⟩

lemma IsRowEdge.renumber {number number' : Nat → Int64 → Int} {e : Edge}
    (h : IsRowEdge number stem directed row e)
    (hnumber : ∀ i v, row[i]? = some v → v ≠ 0 → number i v = number' i v) :
    IsRowEdge number' stem directed row e := by
  obtain ⟨i, v, j, w, hij, hv, hw, hv0, hw0, hneg, rfl⟩ := h
  exact ⟨i, v, j, w, hij, hv, hw, hv0, hw0, hneg,
    by rw [hnumber i v hv hv0, hnumber j w hw hw0]⟩

/-- Where no product is the least number, the nodes are numbered by the products. -/
lemma isRowEdge_weightedNumber (hfits : FitsWord row)
    (hmin : ∀ e ∈ row.zipIdx, Int64.minValue.toInt < weight e) {e : Edge}
    (h : IsRowEdge wordNumber stem directed row e) :
    IsRowEdge weightedNumber stem directed row e := by
  apply h.renumber
  intro i v hv _
  apply wordNumber_eq hfits hv
  intro heq
  have hlt := hmin (v, i) (List.mem_zipIdx_iff_getElem?.2 hv)
  have hweight := hfits.toInt_weight hv
  rw [heq] at hweight
  exact absurd hweight hlt.ne

/-! ### Rows of units -/

lemma eq_or_eq_of_length {α : Type} {l : List α} (hl : l.length = 2) {a b c : α} (ha : a ∈ l)
    (hb : b ∈ l) (hab : a ≠ b) (hc : c ∈ l) : c = a ∨ c = b := by
  obtain ⟨p, q, rfl⟩ := List.length_eq_two.1 hl
  grind

/-- Nodes are numbered by whole numbers without ambiguity. -/
lemma labelEdge_inj_iff {a b c d : Int} :
    labelEdge stem (toString a) (toString b) = labelEdge stem (toString c) (toString d) ↔
      a = c ∧ b = d :=
  (labelEdge_eq_iff (Ident.isLabel_int a) (Ident.isLabel_int b) (Ident.isLabel_int c)
    (Ident.isLabel_int d)).trans (and_congr Int.repr_inj Int.repr_inj)

/-- A product that numbers the node of a column is no wrapped one. -/
lemma column_eq_of_wordNumber (hfits : FitsWord row) {i j : Nat} {v w : Int64}
    (hw : row[j]? = some w) (h : columnNumber i v = wordNumber j w) :
    i + 1 = (j + 1) * w.toInt.natAbs := by
  have hne : Int64.ofInt (weight (w, j)) ≠ Int64.minValue := by
    intro heq
    have hneg : wordNumber j w = Int64.minValue.toInt := by
      rw [wordNumber, heq]
      rfl
    rw [hneg, columnNumber, Int64.toInt_minValue] at h
    omega
  rw [wordNumber_eq hfits hw hne, weightedNumber, natAbs_weight] at h
  exact Int.ofNat_inj.1 h

/-- Only cells of size one leave the numbers of the columns as they are, also crosswise. -/
lemma natAbs_le_one_of_isRowEdge (hfits : FitsWord row) (h : joinsTwo row = true) {e : Edge}
    (hcolumn : IsRowEdge columnNumber stem directed row e)
    (hword : IsRowEdge wordNumber stem directed row e) :
    ∀ cell ∈ row, cell.toInt.natAbs ≤ 1 := by
  obtain ⟨i, v, j, w, hij, hv, hw, hv0, hw0, -, rfl⟩ := hcolumn
  obtain ⟨k, x, l, y, hkl, hx, hy, hx0, hy0, -, he⟩ := hword
  obtain ⟨hsource, hdestination⟩ := labelEdge_inj_iff.1 he
  replace hsource := column_eq_of_wordNumber hfits hx hsource
  replace hdestination := column_eq_of_wordNumber hfits hy hdestination
  have hpair {cell : Int64} {column : Nat} (hcell : row[column]? = some cell) (hne : cell ≠ 0) :
      (cell, column) = (v, i) ∨ (cell, column) = (w, j) :=
    eq_or_eq_of_length (joinsTwo_iff.1 h) (mem_touched_iff.2 ⟨hv, hv0⟩)
      (mem_touched_iff.2 ⟨hw, hw0⟩) (fun heq => hij (Prod.ext_iff.1 heq).2)
      (mem_touched_iff.2 ⟨hcell, hne⟩)
  have hone {column : Nat} {cell : Int64} (heq : column + 1 = (column + 1) * cell.toInt.natAbs) :
      cell.toInt.natAbs = 1 :=
    (Nat.mul_eq_left (Nat.succ_ne_zero column)).1 heq.symm
  have hunits : v.toInt.natAbs = 1 ∧ w.toInt.natAbs = 1 := by
    rcases hpair hx hx0 with hsame | hsame <;> cases hsame
    · rcases hpair hy hy0 with hsame | hsame <;> cases hsame
      · exact absurd rfl hkl
      · exact ⟨hone hsource, hone hdestination⟩
    · rcases hpair hy hy0 with hsame | hsame <;> cases hsame
      · -- crosswise each column would be a multiple of the other
        have hji : j + 1 ∣ i + 1 := ⟨_, hsource⟩
        have hji' : i + 1 ∣ j + 1 := ⟨_, hdestination⟩
        exact absurd (Nat.succ_injective (Nat.dvd_antisymm hji' hji)) hij
      · exact absurd rfl hkl
  intro cell hcell
  by_cases hne : cell = 0
  · simp [hne]
  · obtain ⟨column, hcolumn⟩ := List.getElem?_of_mem hcell
    rcases hpair hcolumn hne with hsame | hsame <;> cases hsame
    · exact hunits.1.le
    · exact hunits.2.le

lemma isRowEdge_columnNumber (hfits : FitsWord row)
    (hunits : ∀ cell ∈ row, cell.toInt.natAbs ≤ 1) {e : Edge}
    (h : IsRowEdge wordNumber stem directed row e) :
    IsRowEdge columnNumber stem directed row e := by
  have hsize {i : Nat} {v : Int64} (hv : row[i]? = some v) :
      (weight (v, i)).natAbs ≤ i + 1 ∧ i < row.length := by
    rw [natAbs_weight]
    have hle := Nat.mul_le_mul_left (i + 1) (hunits v (List.mem_of_getElem? hv))
    exact ⟨hle.trans_eq (Nat.mul_one _), (List.getElem?_eq_some_iff.1 hv).1⟩
  have hmin : ∀ e ∈ row.zipIdx, Int64.minValue.toInt < weight e := by
    rintro ⟨v, i⟩ he
    have hv : row[i]? = some v := List.mem_zipIdx_iff_getElem?.1 he
    obtain ⟨hle, hi⟩ := hsize hv
    have hlength := hfits.length
    rw [Int64.toInt_maxValue] at hlength
    rw [Int64.toInt_minValue]
    omega
  apply (isRowEdge_weightedNumber hfits hmin h).renumber
  intro i v hv hv0
  have hne : v.toInt ≠ 0 := fun hzero => hv0 (Int64.toInt_inj.1 hzero)
  have hone : v.toInt.natAbs = 1 :=
    Nat.le_antisymm (hunits v (List.mem_of_getElem? hv)) (Int.natAbs_pos.2 hne)
  rw [weightedNumber, natAbs_weight, hone, Nat.mul_one, columnNumber]
  rfl

/-! ### All rows -/

lemma forall₂_filterMap {α β : Type} {p : α → Bool} {f : α → Option β} {R : α → β → Prop}
    {as : List α} (hsome : ∀ a ∈ as, p a = true → ∃ b, f a = some b ∧ R a b)
    (hnone : ∀ a, ¬ p a = true → f a = none) :
    List.Forall₂ R (as.filter p) (as.filterMap f) := by
  induction as with
  | nil => exact .nil
  | cons a as ih =>
    obtain ⟨hfirst, hrest⟩ := List.forall_mem_cons.1 hsome
    replace ih := ih hrest
    by_cases ha : p a = true
    · obtain ⟨b, hb, hr⟩ := hfirst ha
      rw [List.filter_cons_of_pos ha, List.filterMap_cons_some hb]
      exact .cons hr ih
    · rw [List.filter_cons_of_neg ha, List.filterMap_cons_none (hnone a ha)]
      exact ih

lemma exists_of_forall₂ {α β : Type} {R S : α → β → Prop} {as : List α} {bs : List β}
    (hr : List.Forall₂ R as bs) (hs : List.Forall₂ S as bs) {a : α} (ha : a ∈ as) :
    ∃ b, R a b ∧ S a b := by
  induction hr with
  | nil => exact absurd ha List.not_mem_nil
  | @cons a' b as bs hab _ ih =>
    cases hs with
    | cons hab' hs =>
      rcases List.mem_cons.1 ha with rfl | ha
      · exact ⟨b, hab, hab'⟩
      · exact ih hs ha

lemma forall₂_rowEdge? {rows : List (List Int64)} (hrows : ∀ row ∈ rows, FitsWord row)
    (stem : String) (directed : Bool) :
    List.Forall₂ (IsRowEdge wordNumber stem directed) (rows.filter joinsTwo)
      (rows.filterMap (rowEdge? stem)) :=
  forall₂_filterMap (fun row hrow h => exists_rowEdge? (hrows row hrow) h)
    (fun _ h => rowEdge?_of_not_joinsTwo h)

lemma eq_of_map_edge {edges edges' : List Edge}
    (h : edges.map Statement.edge = edges'.map .edge) : edges = edges' :=
  List.map_injective_iff.2 (fun _ _ he => Statement.edge.inj he) h

lemma statements_ofIncidence (rows : List (List Int64)) (stem : String) (directed : Bool) :
    (ofIncidence rows stem directed).body.statements =
      (rows.filterMap (rowEdge? stem)).map .edge := by
  rw [ofIncidence_eq, ofEdges_eq]
  rfl

/-- The edges of the rows, renumbered where the products of each row allow it. -/
lemma isIncidenceGraph_of_renumber {number : Nat → Int64 → Int} {rows : List (List Int64)}
    (hrows : ∀ row ∈ rows, FitsWord row)
    (hnumber : ∀ row ∈ rows, joinsTwo row = true → ∀ e,
      IsRowEdge wordNumber stem directed row e → IsRowEdge number stem directed row e) :
    IsIncidenceGraph number rows stem directed (ofIncidence rows stem directed) := by
  refine ⟨_, statements_ofIncidence rows stem directed, ?_⟩
  have hjoining : ∀ row ∈ rows.filter joinsTwo, ∀ e,
      IsRowEdge wordNumber stem directed row e → IsRowEdge number stem directed row e := by
    intro row hrow
    obtain ⟨hmem, hjoins⟩ := List.mem_filter.1 hrow
    exact hnumber row hmem hjoins
  exact ((List.forall₂_and_left _ _).2 ⟨hjoining, forall₂_rowEdge? hrows stem directed⟩).imp
    fun _ e h => h.1 e h.2

/-- Each row with two cells other than zero is one edge between the nodes that are numbered by the
columns and the sizes of the cells, if no product is the least number of 64 bits. These are the
nodes of the columns exactly where no such row has a cell of a size above one. -/
theorem isIncidenceGraph_iff (rows : List (List Int64)) (stem : String) (directed : Bool)
    (hrows : ∀ row ∈ rows, FitsWord row) :
    ((∀ row ∈ rows, joinsTwo row = true → ∀ e ∈ row.zipIdx, Int64.minValue.toInt < weight e) →
      IsIncidenceGraph weightedNumber rows stem directed (ofIncidence rows stem directed)) ∧
    (IsIncidenceGraph columnNumber rows stem directed (ofIncidence rows stem directed) ↔
      ∀ row ∈ rows, joinsTwo row = true → ∀ cell ∈ row, cell.toInt.natAbs ≤ 1) := by
  refine ⟨fun hmin => ?_, ?_, fun hunits => ?_⟩
  · apply isIncidenceGraph_of_renumber hrows
    intro row hrow hjoins _
    exact isRowEdge_weightedNumber (hrows row hrow) (hmin row hrow hjoins)
  · rintro ⟨edges, hstatements, hcolumns⟩ row hrow hjoins
    rw [statements_ofIncidence] at hstatements
    obtain rfl := eq_of_map_edge hstatements
    obtain ⟨e, hcolumn, hword⟩ := exists_of_forall₂ hcolumns
      (forall₂_rowEdge? hrows stem directed) (List.mem_filter.2 ⟨hrow, hjoins⟩)
    exact natAbs_le_one_of_isRowEdge (hrows row hrow) hjoins hcolumn hword
  · apply isIncidenceGraph_of_renumber hrows
    intro row hrow hjoins _
    exact isRowEdge_columnNumber (hrows row hrow) (hunits row hrow hjoins)

/-- A row of units, and one of a single cell, which is no edge. -/
theorem isIncidenceGraph_units :
    (∀ row ∈ [[0, 1, -1], [7]], FitsWord row) ∧
      IsIncidenceGraph weightedNumber [[0, 1, -1], [7]] "n" true
        (ofIncidence [[0, 1, -1], [7]] "n" true) ∧
      IsIncidenceGraph columnNumber [[0, 1, -1], [7]] "n" true
        (ofIncidence [[0, 1, -1], [7]] "n" true) := by
  have hrows : ∀ row ∈ [[0, 1, -1], [7]], FitsWord row := by decide
  have hmin : ∀ row ∈ [[0, 1, -1], [7]], joinsTwo row = true →
      ∀ e ∈ row.zipIdx, Int64.minValue.toInt < weight e := by decide
  have hunits : ∀ row ∈ [[0, 1, -1], [7]], joinsTwo row = true →
      row.all (·.toInt.natAbs ≤ 1) = true := by decide
  obtain ⟨hweighted, hcolumns⟩ := isIncidenceGraph_iff [[0, 1, -1], [7]] "n" true hrows
  refine ⟨hrows, hweighted hmin, hcolumns.2 ?_⟩
  intro row hrow hjoins cell hcell
  exact of_decide_eq_true (List.all_eq_true.1 (hunits row hrow hjoins) cell hcell)

/-- The cell of size two moves the source to the other column, so that the edge is a loop. -/
theorem not_isIncidenceGraph_weighted :
    FitsWord [-2, 1] ∧ ofIncidence [[-2, 1]] "" true = ofEdges true [numberedEdge "" 2 2] ∧
      ¬ IsIncidenceGraph columnNumber [[-2, 1]] "" true (ofIncidence [[-2, 1]] "" true) := by
  have hends : rowEnds [-2, 1] = [-2, 2] := by
    have htouched : (touched [-2, 1]).map (fun e => Int64.ofInt (weight e)) = [-2, 2] := by decide
    rw [rowEnds_eq, htouched, mergeSort_pair]
    rfl
  have hgraph : ofIncidence [[-2, 1]] "" true = ofEdges true [numberedEdge "" 2 2] := by
    rw [ofIncidence_eq, List.filterMap_cons, rowEdge?, hends]
    rfl
  refine ⟨by decide, hgraph, ?_⟩
  rintro ⟨edges, hstatements, hcolumns⟩
  rw [hgraph, ofEdges_eq] at hstatements
  obtain rfl := eq_of_map_edge hstatements
  obtain ⟨i, v, j, w, hij, -, -, -, -, -, he⟩ := (List.forall₂_cons.1 hcolumns).1
  have hloop : labelEdge "" (toString (2 : Int)) (toString (2 : Int)) = _ := he
  obtain ⟨hsource, hdestination⟩ := labelEdge_inj_iff.1 hloop
  rw [columnNumber] at hsource hdestination
  exact hij (by omega)

end DotGraph.Graph
