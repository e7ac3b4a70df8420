import DotGraph.Proofs.Braces
import DotGraph.Proofs.MisreadWords
import DotGraph.Proofs.RoundTrip
import Mathlib.Algebra.Order.BigOperators.Group.List
import Mathlib.Algebra.Order.Group.Nat

/-!
# Misread graphs

What the text of a graph reads as after a change of encoding. Layout and symbols are kept, so the
declarations still end where they ended. A graph that is read back nevertheless has no character
beyond ASCII: the words of a changed text have fewer of them than the words of the graph, or more,
so that a graph made of those words would differ from itself.
-/

namespace DotGraph

open Scan Grammar Text

/-- What is made of texts by a change of encoding that keeps ASCII characters in place. -/
structure Recodes (r : List Char → List Char → Prop) : Prop where
  nil {s : List Char} (h : r [] s) : s = []
  cons {c : Char} {cs s : List Char} (hc : c.toNat < 0x80) (h : r cs s) : r (c :: cs) (c :: s)
  split {d : Char} {as bs s : List Char} (hd : d.toNat < 0x80) (h : r (as ++ d :: bs) s) :
    ∃ s₁ s₂, s = s₁ ++ d :: s₂ ∧ r as s₁ ∧ r bs s₂

/-- Octets of UTF-8 that are read as Latin-1. -/
lemma recodes_misread : Recodes fun cs s => s = misread cs where
  nil h := h
  cons hc h := by rw [misread_ascii hc, h]
  split hd h := by
    rw [misread_append, misread_ascii hd] at h
    exact ⟨_, _, h, rfl, rfl⟩

/-- Octets of Latin-1 that are read as UTF-8. -/
lemma recodes_reading : Recodes fun cs s => misread s = cs where
  nil h := misread_eq_nil_iff.1 h
  cons hc h := by rw [misread_ascii hc, h]
  split hd h := misread_split hd h

section Recodes

variable {r : List Char → List Char → Prop} (hr : Recodes r)
include hr

lemma Recodes.ascii {c : Char} {cs s : List Char} (hc : c.toNat < 0x80) (h : r (c :: cs) s) :
    ∃ s', s = c :: s' ∧ r cs s' := by
  obtain ⟨s₁, s₂, rfl, hnil, hs⟩ := hr.split hc (show r ([] ++ c :: cs) s from h)
  rw [hr.nil hnil]
  exact ⟨s₂, rfl, hs⟩

lemma Recodes.ascii_append {as cs s : List Char} (has : ∀ c ∈ as, c.toNat < 0x80)
    (h : r (as ++ cs) s) : ∃ s', s = as ++ s' ∧ r cs s' := by
  induction as generalizing s with
  | nil => exact ⟨s, rfl, h⟩
  | cons a as ih =>
    obtain ⟨t, rfl, ht⟩ := hr.ascii (has a List.mem_cons_self) h
    obtain ⟨s', rfl, hs'⟩ := ih (fun c hc => has c (List.mem_cons_of_mem _ hc)) ht
    exact ⟨s', rfl, hs'⟩

/-- A text can be cut in front of what no word runs into, which is not changed at its start. -/
lemma Recodes.breaks {as cs s : List Char} (hc : Breaks cs) (h : r (as ++ cs) s) :
    ∃ s₁ s₂, s = s₁ ++ s₂ ∧ r as s₁ ∧ r cs s₂ ∧ Breaks s₂ := by
  obtain ⟨hne, hends⟩ := hc
  cases cs with
  | nil => exact absurd rfl hne
  | cons d cs =>
    have hd : d.toNat < 0x80 := by
      by_contra hd
      have := hends.not_nameChar
      rw [isNameChar_beyond (Nat.not_lt.1 hd)] at this
      exact absurd this (by simp)
    obtain ⟨s₁, s₂, rfl, has, hcs⟩ := hr.split hd h
    exact ⟨s₁, d :: s₂, rfl, has, hr.cons hd hcs, breaks_cons hends.not_nameChar hends.ne_point s₂⟩

end Recodes

/-- The lexeme is no plus sign and, if it is a word, has property `P`. -/
def Lexeme.Plain (P : String → Prop) : Lexeme → Prop
  | .word _ text => P text
  | .symbol s => s ≠ .plus

/-- The text reads as lexemes that stand where others stood: words for words, and the same
symbols. -/
structure Rereads (P : String → Prop) (s : List Char) (xs xs' : List Lexeme) : Prop where
  reads {rest : List Char} {ys : List Lexeme} (h : Reads rest ys) : Reads (s ++ rest) (xs' ++ ys)
  plain : ∀ x ∈ xs', x.Plain P
  nil (h : xs = []) : xs' = []
  closes {depth : Nat} (h : Closes depth xs) : Closes depth xs'

variable {P : String → Prop}

lemma Rereads.symbol (front : List Char) {s : List Char} {sym : Symbol} {xs xs' : List Lexeme}
    (hp : sym ≠ .plus)
    (hfront : ∀ cs ys, Reads cs ys → Reads (front ++ cs) (.symbol sym :: ys))
    (h : Rereads P s xs xs') : Rereads P (front ++ s) (.symbol sym :: xs) (.symbol sym :: xs') where
  reads hr := by
    rw [List.append_assoc]
    exact hfront _ _ (h.reads hr)
  plain := List.forall_mem_cons.2 ⟨hp, h.plain⟩
  nil hnil := by simp at hnil
  closes hc := by
    cases hc with
    | openBrace hc => exact .openBrace (h.closes hc)
    | closeBrace hc => exact .closeBrace (h.closes hc)
    | last =>
      rw [h.nil rfl]
      exact .last
    | symbol hs hd hc => exact .symbol hs hd (h.closes hc)

lemma closes_of_words {ws xs : List Lexeme}
    (hws : ∀ x ∈ ws, ∃ kind text, x = .word kind text ∧ P text) {depth : Nat}
    (h : Closes depth xs) : Closes depth (ws ++ xs) := by
  induction ws with
  | nil => exact h
  | cons w ws ih =>
    obtain ⟨kind, text, rfl, -⟩ := hws w List.mem_cons_self
    exact .word (ih fun x hx => hws x (List.mem_cons_of_mem _ hx))

lemma Rereads.words {cs s : List Char} {kind : WordKind} {text : String} {xs xs' : List Lexeme}
    (hw : ReadsAsWords P cs) (hs : Breaks s) (h : Rereads P s xs xs') :
    ∃ ws, Rereads P (cs ++ s) (.word kind text :: xs) (ws ++ xs') := by
  obtain ⟨ws, hws, hreads⟩ := hw
  refine ⟨ws, fun hr => ?_, fun x hx => ?_, fun hnil => by simp at hnil, fun hc => ?_⟩
  · rw [List.append_assoc, List.append_assoc]
    exact hreads _ _ (hs.append _).2 (h.reads hr)
  · rcases List.mem_append.1 hx with hx | hx
    · obtain ⟨kind, text, rfl, hP⟩ := hws x hx
      exact hP
    · exact h.plain x hx
  · cases hc with
    | word hc => exact closes_of_words hws (h.closes hc)

lemma symbol_ascii {c : Char} {s : Symbol} (h : symbol? c = some s) : c.toNat < 0x80 := by
  unfold symbol? at h
  split at h <;> first | decide | simp at h

lemma keyword_ascii (k : Keyword) : ∀ c ∈ k.text.toList, c.toNat < 0x80 := by
  have hall : k.text.toList.all (·.toNat < 0x80) = true := by cases k <;> rfl
  simpa using hall

/-- A text that is laid out reads, after a change of encoding, as what its words fall apart into. -/
theorem LaidOut.rereads {r : List Char → List Char → Prop} (hr : Recodes r) {v : Vocabulary}
    (hv : v.blanks = []) (hk : ∀ k : Keyword, P k.text)
    (hw : ∀ kind x s, v.ident x → IsWord kind x.text → r x.text.toList s → ReadsAsWords P s)
    {cs : List Char} {xs : List Lexeme} (h : LaidOut v cs xs) {s : List Char} (hs : r cs s) :
    ∃ xs', Rereads P s xs xs' := by
  induction h generalizing s with
  | nil =>
    rw [hr.nil hs]
    exact ⟨[], fun hreads => hreads, by simp, fun _ => rfl, fun hc => hc⟩
  | blank hb hc _ ih =>
    rw [hv, List.mem_nil_iff, or_false] at hc
    obtain ⟨t, rfl, ht⟩ := hr.ascii hc hs
    obtain ⟨xs', h⟩ := ih ht
    exact ⟨xs', fun hreads => (h.reads hreads).blank hb, h.plain, h.nil, h.closes⟩
  | @symbol c sym _ _ hsym hp _ ih =>
    obtain ⟨t, rfl, ht⟩ := hr.ascii (symbol_ascii hsym) hs
    obtain ⟨xs', h⟩ := ih ht
    exact ⟨_, h.symbol [c] hp fun _ _ hreads => hreads.symbol hsym⟩
  | arrow _ ih =>
    obtain ⟨t, rfl, ht⟩ := hr.ascii (by decide) hs
    obtain ⟨u, rfl, hu⟩ := hr.ascii (by decide) ht
    obtain ⟨xs', h⟩ := ih hu
    exact ⟨_, h.symbol ['-', '>'] (by decide) fun _ _ hreads => hreads.arrow⟩
  | line _ ih =>
    obtain ⟨t, rfl, ht⟩ := hr.ascii (by decide) hs
    obtain ⟨u, rfl, hu⟩ := hr.ascii (by decide) ht
    obtain ⟨xs', h⟩ := ih hu
    exact ⟨_, h.symbol ['-', '-'] (by decide) fun _ _ hreads => hreads.line⟩
  | keyword k hc _ ih =>
    obtain ⟨s₁, s₂, rfl, hkey, hrest, hbreaks⟩ := hr.breaks hc hs
    rw [← List.append_nil k.text.toList] at hkey
    obtain ⟨t, rfl, hnil⟩ := hr.ascii_append (keyword_ascii k) hkey
    rw [hr.nil hnil, List.append_nil]
    obtain ⟨xs', h⟩ := ih hrest
    obtain ⟨ws, h⟩ := h.words (readsAsWords_of_isWord (isWord_keyword k) (hk k)) hbreaks
    exact ⟨_, h⟩
  | word hword hx hc _ ih =>
    obtain ⟨s₁, s₂, rfl, hident, hrest, hbreaks⟩ := hr.breaks hc hs
    obtain ⟨xs', h⟩ := ih hrest
    obtain ⟨ws, h⟩ := h.words (hw _ _ _ hx hword hident) hbreaks
    exact ⟨_, h⟩

/-! ### Graphs that are read back -/

namespace Graph

/-- Every container of the graph is proper, and `W` holds of all identifiers. -/
def IsProper (W : Ident → Prop) (g : Graph) : Prop :=
  g.body.Everywhere (Subgraph.IsProper W g.strict g.kind.isDirected)

end Graph

/-- Canonical identifiers whose texts have property `Q`, in texts that are not indented. -/
def Vocabulary.only (Q : String → Prop) : Vocabulary where
  blanks := []
  ident x := x.IsCanonical ∧ Q x.text
  canonical _ h := h.1

lemma Graph.IsCanonical.isProper_only {g : Graph} (hg : g.IsCanonical) {Q : String → Prop}
    (hQ : ∀ text, Q text) : g.IsProper (Vocabulary.only Q).ident := by
  have hsame : (Vocabulary.only Q).ident = Ident.IsCanonical := by
    funext x
    exact propext ⟨And.left, fun h => ⟨h, hQ x.text⟩⟩
  rw [hsame]
  exact hg

lemma fits_only {Q : String → Prop} : Printer.Fits {} (Vocabulary.only Q) :=
  ⟨Printer.isReadable_default, by simp⟩

lemma word_of_isIdent {xs : List Lexeme} {x : Ident} (h : IsIdent xs x)
    (hp : .symbol .plus ∉ xs) : ∃ kind, xs = [.word kind x.text] := by
  cases h with
  | name => exact ⟨_, rfl⟩
  | numeral => exact ⟨_, rfl⟩
  | html => exact ⟨_, rfl⟩
  | quoted h =>
    cases h with
    | nil => exact ⟨_, rfl⟩
    | cons => simp at hp

/-- A graph that is read from plain lexemes has their property. -/
lemma isProper_toGraph {Q : String → Prop} {s : List Char} {xs : List Lexeme} {d : Declaration}
    {inheritDefaults : Bool} (hreads : Reads s xs)
    (hplain : ∀ x ∈ xs, x.Plain fun text => text ≠ "-." ∧ Q text) (hd : IsDeclaration xs d) :
    (d.toGraph inheritDefaults).IsProper (Vocabulary.only Q).ident := by
  obtain ⟨tokens, ht, hxs⟩ := hreads {}
  have hspelled : ∀ x, IsSpelled xs x → (Vocabulary.only Q).ident x := by
    rintro x ⟨ys, hx, hsub⟩
    have hplus : .symbol .plus ∉ ys := fun hp => hplain _ (hsub hp) rfl
    obtain ⟨kind, rfl⟩ := word_of_isIdent hx hplus
    have hmem : .word kind x.text ∈ xs := hsub List.mem_cons_self
    obtain ⟨hne, hQ⟩ := hplain _ hmem
    refine ⟨Ident.isCanonical_of_isIdent hx (fun k text hw => ?_) ?_, hQ⟩
    · rw [← hxs] at hsub
      obtain ⟨token, htoken, hlexeme⟩ := List.mem_map.1 (hsub hw)
      exact isWord_of_tokensFrom ht htoken hlexeme
    · intro hs
      rw [List.mem_singleton, signedPoint, Lexeme.word.injEq] at hs
      exact hne hs.2.symm
  have hidents := allIdents_of_isDeclarations hspelled (.cons hd .nil) (by simp) d
    List.mem_cons_self
  exact (@toGraph_builds _ inheritDefaults d hidents).1

/-- A text is of ASCII where the identifiers that are shorter are. -/
lemma LaidOut.beyond_eq_zero {v : Vocabulary} (hv : v.blanks = []) {n : Nat}
    (hx : ∀ x, v.ident x → x.text.toList.length < n → beyond x.text.toList = 0) {cs : List Char}
    {xs : List Lexeme} (h : LaidOut v cs xs) (hn : cs.length < n) : beyond cs = 0 := by
  induction h with
  | nil => rfl
  | blank _ hc _ ih =>
    rw [hv, List.mem_nil_iff, or_false] at hc
    rw [beyond_ascii hc]
    exact ih (Nat.lt_of_succ_lt hn)
  | symbol hs _ _ ih =>
    rw [beyond_ascii (symbol_ascii hs)]
    exact ih (Nat.lt_of_succ_lt hn)
  | arrow _ ih | line _ ih =>
    rw [beyond_ascii (by decide), beyond_ascii (by decide)]
    exact ih (Nat.lt_of_succ_lt (Nat.lt_of_succ_lt hn))
  | keyword k _ _ ih =>
    rw [List.length_append] at hn
    rw [beyond_append, ih (by omega), beyond_eq_zero_iff.2 (keyword_ascii k)]
  | word _ hword _ _ ih =>
    rw [List.length_append] at hn
    rw [beyond_append, ih (by omega), hx _ hword (by omega)]

/-- The text of a graph of canonical identifiers is laid out as its declaration. -/
lemma laidOut_text {Q : String → Prop} {g : Graph} (hg : g.IsProper (Vocabulary.only Q).ident)
    (hsimple : g.simplify = false) :
    ∃ xs, LaidOut (Vocabulary.only Q) g.text.toList xs ∧ Closes 0 xs := by
  obtain ⟨xs, hd, hspells⟩ := spells_graph fits_only hg hsimple
  have hlaid := hspells [] [] .nil
  rw [List.append_nil, List.append_nil] at hlaid
  exact ⟨xs, hlaid, closes_of_isDeclaration hd⟩

section Descent

variable {r : List Char → List Char → Prop} (hr : Recodes r) {g : Graph} {s : List Char}
  (hs : r g.text.toList s)
include hr hs

/-- What the text of a graph reads as after a change of encoding. -/
lemma exists_rereads {Q P : String → Prop} (hsimple : g.simplify = false)
    (hg : g.IsProper (Vocabulary.only Q).ident) (hk : ∀ k : Keyword, P k.text)
    (hw : ∀ kind (x : Ident) cs, x.IsCanonical → Q x.text → IsWord kind x.text →
      r x.text.toList cs → ReadsAsWords P cs) :
    ∃ xs, (∀ rest ys, Reads rest ys → Reads (s ++ rest) (xs ++ ys)) ∧ Closes 0 xs ∧
      ∀ x ∈ xs, x.Plain P := by
  obtain ⟨xs, hlaid, hcloses⟩ := laidOut_text hg hsimple
  obtain ⟨ys, h⟩ := hlaid.rereads hr rfl hk
    (fun kind x cs (hx : (Vocabulary.only Q).ident x) => hw kind x cs hx.1 hx.2) hs
  exact ⟨ys, fun _ _ => h.reads, h.closes hcloses, h.plain⟩

variable {xs : List Lexeme} (hreads : Reads s xs)
include hreads

lemma plain_of_isProper {Q P : String → Prop} (hsimple : g.simplify = false)
    (hg : g.IsProper (Vocabulary.only Q).ident) (hk : ∀ k : Keyword, P k.text)
    (hw : ∀ kind (x : Ident) cs, x.IsCanonical → Q x.text → IsWord kind x.text →
      r x.text.toList cs → ReadsAsWords P cs) : ∀ x ∈ xs, x.Plain P := by
  obtain ⟨ys, hfront, -, hplain⟩ := exists_rereads hr hs hsimple hg hk hw
  rwa [hreads.unique (reads_of_front hfront)]

/-- A graph that is read back has every property that changed words take over from words. -/
lemma isProper_descent (hsimple : g.simplify = false) {d : Declaration} {inheritDefaults : Bool}
    (hd : IsDeclaration xs d) (hgraph : d.toGraph inheritDefaults = g) {Q : Nat → String → Prop}
    (hzero : g.IsProper (Vocabulary.only (Q 0)).ident) (hk : ∀ n (k : Keyword), Q n k.text)
    (hw : ∀ n kind (x : Ident) cs, x.IsCanonical → Q n x.text → IsWord kind x.text →
      r x.text.toList cs → ReadsAsWords (fun text => text ≠ "-." ∧ Q (n + 1) text) cs) (n : Nat) :
    g.IsProper (Vocabulary.only (Q n)).ident := by
  induction n with
  | zero => exact hzero
  | succ n ih =>
    have hkey : ∀ k : Keyword, k.text ≠ "-." ∧ Q (n + 1) k.text :=
      fun k => ⟨by cases k <;> decide, hk (n + 1) k⟩
    have hplain := plain_of_isProper hr hs hreads hsimple ih hkey (hw n)
    exact hgraph ▸ isProper_toGraph hreads hplain hd

end Descent

lemma text_ascii {g : Graph} (hsimple : g.simplify = false) {Q : String → Prop}
    (hg : g.IsProper (Vocabulary.only Q).ident)
    (hQ : ∀ text, Q text → text.toList.length ≤ g.text.toList.length → beyond text.toList = 0) :
    ∀ c ∈ g.text.toList, c.toNat < 0x80 := by
  obtain ⟨xs, hlaid, -⟩ := laidOut_text hg hsimple
  have hword (x : Ident) (hx : (Vocabulary.only Q).ident x)
      (hlen : x.text.toList.length < g.text.toList.length + 1) : beyond x.text.toList = 0 :=
    hQ x.text hx.2 (Nat.le_of_lt_succ hlen)
  exact beyond_eq_zero_iff.1 (hlaid.beyond_eq_zero rfl hword (Nat.lt_succ_self _))

/-- The text is ASCII or has at least `n` characters beyond it. -/
def ManyBeyond (n : Nat) (text : String) : Prop :=
  beyond text.toList = 0 ∨ n ≤ beyond text.toList

/-- The text is ASCII or has at least `n` characters beyond it less than `bound`. -/
def FewBeyond (bound n : Nat) (text : String) : Prop :=
  beyond text.toList = 0 ∨ beyond text.toList + n ≤ bound

lemma ManyBeyond.misread {n : Nat} {text : String} (h : ManyBeyond n text) :
    ManyBeyond (n + 1) (String.ofList (misread text.toList)) := by
  unfold ManyBeyond at *
  rw [String.toList_ofList]
  have htwice := beyond_misread text.toList
  rcases h with h | h
  · rw [misread_of_ascii (beyond_eq_zero_iff.1 h)]
    exact .inl h
  · omega

lemma FewBeyond.of_misread {bound n : Nat} {text : String} (h : FewBeyond bound n text)
    {cs : List Char} (hcs : misread cs = text.toList) {piece : String}
    (hpiece : piece.toList <:+: cs) : FewBeyond bound (n + 1) piece := by
  unfold FewBeyond at *
  have htwice := beyond_misread cs
  have hle := beyond_le_of_infix hpiece
  rw [hcs] at htwice
  rcases h with h | h <;> omega

/-- The words of a misread text have at least twice as many characters beyond ASCII. -/
theorem eq_of_misread {g : Graph} (hg : g.IsCanonical) (hsimple : g.simplify = false)
    {xs : List Lexeme} (hreads : Reads (misread g.text.toList) xs) {d : Declaration}
    {inheritDefaults : Bool} (hd : IsDeclaration xs d) (hgraph : d.toGraph inheritDefaults = g) :
    misread g.text.toList = g.text.toList := by
  have hzero : g.IsProper (Vocabulary.only (ManyBeyond 0)).ident :=
    hg.isProper_only fun _ => .inr (Nat.zero_le _)
  have hk (n : Nat) (k : Keyword) : ManyBeyond n k.text :=
    .inl (beyond_eq_zero_iff.2 (keyword_ascii k))
  have hdescent := isProper_descent recodes_misread rfl hreads hsimple hd hgraph hzero hk
    fun n kind x cs hx hmany hword hcs => by
      subst hcs
      refine readsAsWords_misread hword ⟨fun heq => hx.ne_signedPoint ?_, hmany.misread⟩
      rw [← String.toList_inj, String.toList_ofList] at heq
      rw [← String.toList_inj]
      exact misread_injective heq
  -- In as many rounds as the text has characters, a word beyond ASCII would outgrow it.
  refine misread_of_ascii (text_ascii hsimple (hdescent (g.text.toList.length + 1)) ?_)
  rintro text (hnone | hmany) hlen
  · exact hnone
  · have := beyond_le_length text.toList
    omega

/-- The words of a text whose misreading is the text of a graph have at most half as many
characters beyond ASCII. -/
theorem eq_of_misread_eq {g : Graph} (hg : g.IsCanonical) (hsimple : g.simplify = false)
    {s : List Char} (hs : misread s = g.text.toList) {xs : List Lexeme} (hreads : Reads s xs)
    {d : Declaration} {inheritDefaults : Bool} (hd : IsDeclaration xs d)
    (hgraph : d.toGraph inheritDefaults = g) : s = g.text.toList := by
  have hwords (P : String → Prop) (kind : WordKind) (x : Ident) (cs : List Char)
      (hx : x.IsCanonical) (hword : IsWord kind x.text) (hcs : misread cs = x.text.toList)
      (hP : ∀ piece : String, piece.toList <:+: cs → P piece) :
      ReadsAsWords (fun text => text ≠ "-." ∧ P text) cs :=
    readsAsWords_of_misread hword hcs fun piece hpiece hsign =>
      ⟨fun heq => hx.ne_signedPoint (hsign heq), hP piece hpiece⟩
  let bound := (xs.map fun x => beyond x.spelling.toList).sum
  have hk (n : Nat) (k : Keyword) : FewBeyond bound n k.text :=
    .inl (beyond_eq_zero_iff.2 (keyword_ascii k))
  have hzero : g.IsProper (Vocabulary.only (FewBeyond bound 0)).ident := by
    have hplain := plain_of_isProper recodes_reading hs hreads hsimple
      (hg.isProper_only fun _ => trivial) (P := fun text => text ≠ "-." ∧ True)
      (fun k => ⟨by cases k <;> decide, trivial⟩)
      fun kind x cs hx _ hword hcs => hwords _ kind x cs hx hword hcs fun _ _ => trivial
    rw [← hgraph]
    refine isProper_toGraph hreads (fun x hx => ?_) hd
    have hbound : beyond x.spelling.toList ≤ bound :=
      List.le_sum_of_mem (List.mem_map_of_mem hx)
    cases x with
    | word kind text => exact ⟨(hplain _ hx).1, .inr hbound⟩
    | symbol sym => exact hplain _ hx
  have hdescent := isProper_descent recodes_reading hs hreads hsimple hd hgraph hzero hk
    fun n kind x cs hx hfew hword hcs =>
      hwords _ kind x cs hx hword hcs fun piece hpiece => hfew.of_misread hcs hpiece
  have htext := text_ascii hsimple (hdescent (bound + 1)) fun text hfew _ => by
    rcases hfew with hnone | hfew <;> omega
  rw [← misread_of_ascii htext] at hs
  exact misread_injective hs

end DotGraph
