import DotGraph.Batch
import DotGraph.Proofs.MisreadGraph
import Mathlib.Data.List.Forall2

/-!
# Stored graphs

Graphs one after the other in a file, each in the character set that it declares. A file is read
in one character set as a whole. The graphs come back from what was read exactly when every text
was read as it was written.
-/

namespace DotGraph

open Scan Grammar Text

/-! ### Texts of graphs in a row -/

/-- The text is the text of the graph, or what is read where it was written in UTF-8 and is read
in Latin-1, or the other way round. -/
def Graph.IsRead (g : Graph) (s : List Char) : Prop :=
  s = g.text.toList ∨ misread s = g.text.toList ∨ s = misread g.text.toList

lemma Graph.IsRead.reads {g : Graph} (hg : g.IsCanonical) (hsimple : g.simplify = false)
    {inheritDefaults : Bool} {s : List Char} (h : g.IsRead s) :
    ∃ xs, (∀ rest ys, Reads rest ys → Reads (s ++ rest) (xs ++ ys)) ∧ Closes 0 xs ∧
      ∀ d, IsDeclaration xs d → d.toGraph inheritDefaults = g → s = g.text.toList := by
  have htrue : g.IsProper (Vocabulary.only fun _ => True).ident := hg.isProper_only fun _ => trivial
  rcases h with rfl | hs | rfl
  · obtain ⟨xs, hlaid, hcloses⟩ := laidOut_text htrue hsimple
    exact ⟨xs, fun _ _ => hlaid.reads, hcloses, fun _ _ _ => rfl⟩
  · obtain ⟨xs, hfront, hcloses, -⟩ :=
      exists_rereads (P := fun _ => True) recodes_reading hs hsimple htrue (fun _ => trivial)
        fun kind x cs _ _ hword hcs => readsAsWords_of_misread hword hcs fun _ _ _ => trivial
    exact ⟨xs, hfront, hcloses, fun d hd hgraph =>
      eq_of_misread_eq hg hsimple hs (reads_of_front hfront) hd hgraph⟩
  · obtain ⟨xs, hfront, hcloses, -⟩ :=
      exists_rereads (P := fun _ => True) recodes_misread rfl hsimple htrue (fun _ => trivial)
        fun kind x cs _ _ hword hcs => by
          subst hcs
          exact readsAsWords_misread hword trivial
    exact ⟨xs, hfront, hcloses, fun d hd hgraph =>
      eq_of_misread hg hsimple (reads_of_front hfront) hd hgraph⟩

lemma reads_flatten {gs : List Graph} {ss : List (List Char)} {inheritDefaults : Bool}
    (hgs : ∀ g ∈ gs, g.IsCanonical ∧ g.simplify = false) (h : List.Forall₂ Graph.IsRead gs ss) :
    ∃ xs, Reads ss.flatten xs ∧ ∀ ds, IsDeclarations xs ds →
      ds.map (Declaration.toGraph inheritDefaults) = gs → ss = gs.map (·.text.toList) := by
  induction h with
  | nil => exact ⟨[], reads_nil, fun _ _ _ => rfl⟩
  | @cons g s gs ss hread _ ih =>
    obtain ⟨hg, hsimple⟩ := hgs g List.mem_cons_self
    obtain ⟨xs, hfront, hcloses, hsame⟩ := hread.reads hg hsimple
    obtain ⟨ys, hreads, hrest⟩ := ih fun g' hg' => hgs g' (List.mem_cons_of_mem _ hg')
    refine ⟨xs ++ ys, hfront _ _ hreads, fun ds hds hgraphs => ?_⟩
    obtain ⟨d, others, rfl, hd, hothers⟩ := isDeclaration_of_closes hcloses hds
    rw [List.map_cons, List.cons.injEq] at hgraphs
    rw [List.map_cons, hsame d hd hgraphs.1, hrest others hothers hgraphs.2]

/-- Graphs come back from what was read exactly when their texts do. -/
theorem parse_flatten_iff {reader : Reader} {gs : List Graph} {ss : List (List Char)}
    (hgs : ∀ g ∈ gs, g.IsCanonical ∧ g.simplify = false) (hset : ∀ g ∈ gs, g.Settled reader)
    (hne : gs ≠ []) (h : List.Forall₂ Graph.IsRead gs ss) :
    (∃ parsed, reader.parse (String.ofList ss.flatten) = .ok parsed ∧ parsed.toList = gs) ↔
      ss = gs.map (·.text.toList) := by
  constructor
  · rintro ⟨parsed, hparse, hlist⟩
    obtain ⟨document, hdoc, rfl⟩ := Reader.parse_eq_ok_iff.1 hparse
    obtain ⟨tokens, ht, hderives, -⟩ := ofString_eq_ok_iff.1 hdoc
    obtain ⟨xs, hreads, hsame⟩ := reads_flatten hgs h
    rw [Tokens.ofString, String.toList_ofList] at ht
    obtain ⟨tokens', ht', rfl⟩ := hreads {}
    rw [ht] at ht'
    cases ht'
    rw [Parsed.toList_ofList] at hlist
    exact hsame document hderives hlist
  · rintro rfl
    have htext : String.ofList (gs.map (·.text.toList)).flatten = ({} : Printer).graphs gs := by
      rw [← String.toList_inj, String.toList_ofList, Printer.graphs, String.toList_join,
        List.flatMap_map, List.flatMap_def]
      rfl
    exact ⟨_, htext ▸ parse_graphs Printer.isReadable_default rfl hgs hset hne,
      Parsed.toList_ofList gs⟩

/-! ### Graphs in their character sets -/

/-- No character of the text is beyond ASCII. -/
def Graph.IsAscii (g : Graph) : Prop := ∀ c ∈ g.text.toList, c.toNat < 0x80

/-- The octets are the text of the graph in its declared character set. -/
def Graph.IsStored (g : Graph) (octets : Octets) : Prop :=
  ∃ charset, g.charset = .ok charset ∧ charset.encode g.text = .ok octets

lemma misread_eq_self_iff {cs : List Char} : misread cs = cs ↔ ∀ c ∈ cs, c.toNat < 0x80 := by
  constructor
  · intro h
    have htwice := beyond_misread cs
    rw [h] at htwice
    exact beyond_eq_zero_iff.1 (by omega)
  · exact misread_of_ascii

namespace Charset

lemma encode_utf8 {text : String} {octets : Octets} (h : utf8.encode text = .ok octets) :
    octets.map charOfOctet = misread text.toList := by
  cases h
  rfl

lemma encode_limited {charset : Charset} {limit : Nat} (hl : charset.limit? = some limit)
    (hlt : limit < 256) {text : String} {octets : Octets} (h : charset.encode text = .ok octets) :
    octets.map charOfOctet = text.toList ∧ ∀ c ∈ text.toList, c.toNat ≤ limit := by
  simp only [encode, hl] at h
  split at h
  · simp at h
  · rename_i hfind
    cases h
    rw [List.find?_eq_none] at hfind
    have hle : ∀ c ∈ text.toList, c.toNat ≤ limit := by simpa using hfind
    refine ⟨?_, hle⟩
    rw [List.map_map]
    refine (List.map_congr_left fun c hc => ?_).trans (List.map_id _)
    have := hle c hc
    rw [Function.comp_apply, charOfOctet, Utf8.toNat_octet (by omega), Char.ofNat_toNat]
    rfl

end Charset

/-- What the octets of a graph are, each as the character of its number. -/
lemma Graph.IsStored.chars {g : Graph} {octets : Octets} (h : g.IsStored octets) :
    octets.map Charset.charOfOctet = g.text.toList ∧
        (g.charset = .ok .latin1 ∨ g.charset = .ok .ascii ∧ g.IsAscii) ∨
      octets.map Charset.charOfOctet = misread g.text.toList ∧ g.charset = .ok .utf8 := by
  obtain ⟨charset, hcharset, hencode⟩ := h
  cases charset with
  | utf8 => exact .inr ⟨Charset.encode_utf8 hencode, hcharset⟩
  | latin1 => exact .inl ⟨(Charset.encode_limited rfl (by decide) hencode).1, .inl hcharset⟩
  | ascii =>
    obtain ⟨hchars, hascii⟩ := Charset.encode_limited rfl (by decide) hencode
    exact .inl ⟨hchars, .inr ⟨hcharset, fun c hc => Nat.lt_succ_of_le (hascii c hc)⟩⟩

lemma mapM_eq_ok {f : α → Except ε β} {as : List α} {bs : List β} (h : as.mapM f = .ok bs) :
    List.Forall₂ (fun a b => f a = .ok b) as bs := by
  induction as generalizing bs with
  | nil =>
    cases h
    exact .nil
  | cons a as ih =>
    rw [List.mapM_cons] at h
    cases ha : f a with
    | error e => simp [ha, bind, Except.bind] at h
    | ok b =>
      cases has : as.mapM f with
      | error e => simp [ha, has, bind, Except.bind] at h
      | ok bs' =>
        simp only [ha, has, bind, Except.bind, pure, Except.pure, Except.ok.injEq] at h
        subst h
        exact .cons ha (ih has)

lemma isStored_of_encodeAll {gs : List Graph} {content : Octets}
    (h : Batch.encodeAll {} gs = .ok content) :
    ∃ os, List.Forall₂ Graph.IsStored gs os ∧ os.flatten = content := by
  unfold Batch.encodeAll at h
  generalize hos : gs.mapM (fun g => (do (← g.charset).encode (({} : Printer).graph g) :
    Except DotError Octets)) = result at h
  cases result with
  | error e => simp [Functor.map, Except.map] at h
  | ok os =>
    simp only [Functor.map, Except.map, Except.ok.injEq] at h
    refine ⟨os, (mapM_eq_ok hos).imp fun g octets hg => ?_, h⟩
    cases hcharset : g.charset with
    | error e => simp [hcharset, bind, Except.bind] at hg
    | ok charset =>
      simp only [hcharset, bind, Except.bind] at hg
      exact ⟨charset, hcharset, hg⟩

/-! ### What is read of stored graphs -/

lemma Graph.text_last (g : Graph) : ∃ cs, g.text.toList = cs ++ ['\n'] := by
  refine ⟨(Printer.header g ++ ({} : Printer).attributeLines 1 g.attributes ++
    ({} : Printer).lines g.kind g.simplify 1 [] g.body.statements ++ "\x7d").toList, ?_⟩
  have hclose : "\x7d\n" = "\x7d" ++ "\n" := rfl
  rw [Graph.text, Printer.graph, hclose, ← String.append_assoc, String.toList_append]
  rfl

/-- Texts that were written in their own character sets, read in Latin-1. -/
lemma isRead_latin1 {gs : List Graph} {os : List Octets}
    (h : List.Forall₂ Graph.IsStored gs os) :
    List.Forall₂ Graph.IsRead gs (os.map (List.map Charset.charOfOctet)) ∧
      (os.map (List.map Charset.charOfOctet) = gs.map (·.text.toList) ↔
        ∀ g ∈ gs, g.charset = .ok .utf8 → g.IsAscii) := by
  induction h with
  | nil => exact ⟨.nil, by simp⟩
  | @cons g octets gs os hstored _ ih =>
    obtain ⟨hread, hiff⟩ := ih
    rw [List.map_cons, List.map_cons, List.cons.injEq, List.forall_mem_cons, hiff]
    rcases hstored.chars with ⟨hchars, hcharset⟩ | ⟨hchars, hcharset⟩
    · refine ⟨.cons (.inl hchars) hread, and_congr_left fun _ => ?_⟩
      refine ⟨fun _ hutf8 => ?_, fun _ => hchars⟩
      rcases hcharset with hlatin1 | ⟨-, hascii⟩
      · rw [hlatin1] at hutf8
        cases hutf8
      · exact hascii
    · refine ⟨.cons (.inr (.inr hchars)) hread, and_congr_left fun _ => ?_⟩
      rw [hchars, misread_eq_self_iff]
      exact ⟨fun hascii _ => hascii, fun hascii => hascii hcharset⟩

lemma Graph.IsStored.last {g : Graph} {octets : Octets} (h : g.IsStored octets) :
    ∃ cs, octets.map Charset.charOfOctet = cs ++ ['\n'] := by
  obtain ⟨cs, hcs⟩ := g.text_last
  rcases h.chars with ⟨hchars, -⟩ | ⟨hchars, -⟩
  · exact ⟨cs, hchars.trans hcs⟩
  · refine ⟨misread cs, ?_⟩
    rw [hchars, hcs, misread_append]
    rfl

/-- One text in front of others, read in UTF-8. -/
lemma Graph.IsStored.isRead {g : Graph} {octets : Octets} (h : g.IsStored octets) {s : List Char}
    (hs : misread s = octets.map Charset.charOfOctet) :
    g.IsRead s ∧ (s = g.text.toList ↔ (g.charset = .ok .latin1 → g.IsAscii)) := by
  rcases h.chars with ⟨hchars, hcharset⟩ | ⟨hchars, hcharset⟩
  · rw [hchars] at hs
    refine ⟨.inr (.inl hs), fun hsame _ => ?_, fun hascii => ?_⟩
    · rw [hsame] at hs
      exact misread_eq_self_iff.1 hs
    · have htext : g.IsAscii := by
        rcases hcharset with hlatin1 | ⟨-, htext⟩
        · exact hascii hlatin1
        · exact htext
      rw [← misread_of_ascii htext] at hs
      exact misread_injective hs
  · rw [hchars] at hs
    have hsame := misread_injective hs
    refine ⟨.inl hsame, fun _ hlatin1 => ?_, fun _ => hsame⟩
    rw [hcharset] at hlatin1
    cases hlatin1

/-- Texts that were written in their own character sets, read in UTF-8. -/
lemma isRead_utf8 {gs : List Graph} {os : List Octets} (h : List.Forall₂ Graph.IsStored gs os)
    {t : List Char} (ht : misread t = os.flatten.map Charset.charOfOctet) :
    ∃ ss, t = ss.flatten ∧ List.Forall₂ Graph.IsRead gs ss ∧
      (ss = gs.map (·.text.toList) ↔ ∀ g ∈ gs, g.charset = .ok .latin1 → g.IsAscii) := by
  induction h generalizing t with
  | nil =>
    have hnil : t = [] := misread_eq_nil_iff.1 ht
    exact ⟨[], hnil, .nil, by simp⟩
  | @cons g octets gs os hstored _ ih =>
    obtain ⟨cs, hcs⟩ := hstored.last
    rw [List.flatten_cons, List.map_append, hcs, List.append_assoc] at ht
    obtain ⟨s, rest, rfl, hs, hrest⟩ := misread_split (by decide) ht
    obtain ⟨ss, rfl, hread, hiff⟩ := ih hrest
    have hmisread : misread (s ++ ['\n']) = octets.map Charset.charOfOctet := by
      rw [misread_append, hs, hcs]
      rfl
    obtain ⟨hhead, hsame⟩ := hstored.isRead hmisread
    refine ⟨(s ++ ['\n']) :: ss, by simp, .cons hhead hread, ?_⟩
    rw [List.map_cons, List.cons.injEq, List.forall_mem_cons, hiff, hsame]

lemma Graph.IsStored.eq_encode {g : Graph} {octets : Octets} (h : g.IsStored octets)
    (hascii : g.charset = .ok .latin1 → g.IsAscii) : octets = Utf8.encode g.text.toList := by
  refine (List.map_inj_right fun _ _ hc => charOfOctet_injective hc).1 ?_
  rcases h.chars with ⟨hchars, hlatin1 | ⟨-, htext⟩⟩ | ⟨hchars, -⟩
  · exact hchars.trans (misread_of_ascii (hascii hlatin1)).symm
  · exact hchars.trans (misread_of_ascii htext).symm
  · exact hchars

/-- Where all that is written in Latin-1 is ASCII, the octets are UTF-8. -/
lemma decode_of_isStored {gs : List Graph} {os : List Octets}
    (h : List.Forall₂ Graph.IsStored gs os)
    (hascii : ∀ g ∈ gs, g.charset = .ok .latin1 → g.IsAscii) :
    ∃ t, Utf8.decode os.flatten = .ok t := by
  refine ⟨gs.flatMap (·.text.toList), Utf8.decode_eq_ok_iff.2 ?_⟩
  induction h with
  | nil => rfl
  | @cons g octets gs os hstored _ ih =>
    rw [List.forall_mem_cons] at hascii
    rw [List.flatMap_cons, Utf8.encode_append, ih hascii.2, List.flatten_cons,
      hstored.eq_encode hascii.1]

end DotGraph
