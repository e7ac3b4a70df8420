import DotGraph.Proofs.StoredGraphs
import DotGraph.Proofs.WrittenFile

/-!
# Formatting in place

A file that is formatted in place holds its graphs, each written in the character set that it
declares, but it is read in one character set, which its octets decide. The graphs come back when
nothing beyond ASCII was written in a character set other than that one, and only then.
-/

namespace DotGraph

open Scan Grammar Text

/-! ### What a file is read as -/

namespace Reader

/-- The text of a file: its octets in UTF-8, or in Latin-1 where they are not UTF-8 and declare
it. -/
def textOf (octets : Octets) : Except DotError String :=
  match Charset.utf8.decode octets with
  | .ok source => .ok source
  | .error e => if declaresLatin1 octets then Charset.latin1.decode octets else .error e

lemma parseContent_eq (reader : Reader) (octets : Octets) :
    reader.parseContent octets = textOf octets >>= reader.parse := by
  unfold parseContent textOf
  cases Charset.utf8.decode octets with
  | ok source => rfl
  | error e =>
    dsimp only
    split <;> rfl

lemma parseContent_eq_ok_iff {reader : Reader} {octets : Octets} {parsed : Parsed} :
    reader.parseContent octets = .ok parsed ↔
      ∃ source, textOf octets = .ok source ∧ reader.parse source = .ok parsed := by
  rw [parseContent_eq]
  cases textOf octets <;> simp [bind, Except.bind]

lemma decode_utf8_eq_ok_iff {octets : Octets} {source : String} :
    Charset.utf8.decode octets = .ok source ↔ Utf8.encode source.toList = octets := by
  rw [← Utf8.decode_eq_ok_iff, Charset.decode]
  cases Utf8.decode octets with
  | error offset => simp
  | ok cs => simp [← String.toList_inj]

/-- Stored graphs come back exactly where the character set that their octets are read in leaves
all of their texts as they are. -/
theorem parseContent_flatten_iff {reader : Reader} {gs : List Graph} {os : List Octets}
    (hgs : ∀ g ∈ gs, g.IsCanonical ∧ g.simplify = false) (hset : ∀ g ∈ gs, g.Settled reader)
    (hne : gs ≠ []) (h : List.Forall₂ Graph.IsStored gs os) :
    (∃ parsed, reader.parseContent os.flatten = .ok parsed ∧ parsed.toList = gs) ↔
      (∀ g ∈ gs, g.charset = .ok .latin1 → g.IsAscii) ∨
        (∀ g ∈ gs, g.charset = .ok .utf8 → g.IsAscii) ∧
          (∀ source, Charset.utf8.decode os.flatten ≠ .ok source) ∧
          declaresLatin1 os.flatten = true := by
  cases hdecode : Charset.utf8.decode os.flatten with
  | ok s =>
    have hmisread : misread s.toList = os.flatten.map Charset.charOfOctet := by
      rw [misread, decode_utf8_eq_ok_iff.1 hdecode]
    obtain ⟨ss, hflat, hread, hsame⟩ := isRead_utf8 h hmisread
    rw [or_iff_left fun hright => hright.2.1 s rfl, ← hsame,
      ← parse_flatten_iff hgs hset hne hread, ← hflat, String.ofList_toList]
    simp [parseContent_eq, textOf, hdecode, bind, Except.bind]
  | error e =>
    have hnot : ¬ ∀ g ∈ gs, g.charset = .ok .latin1 → g.IsAscii := by
      intro hascii
      obtain ⟨t, ht⟩ := decode_of_isStored h hascii
      rw [Charset.decode, ht] at hdecode
      cases hdecode
    have hlatin1 : Charset.latin1.decode os.flatten =
        .ok (String.ofList (os.map (List.map Charset.charOfOctet)).flatten) := by
      rw [← List.map_flatten]
      rfl
    obtain ⟨hread, hsame⟩ := isRead_latin1 h
    rw [or_iff_right hnot, ← hsame, ← parse_flatten_iff hgs hset hne hread]
    cases hdeclares : declaresLatin1 os.flatten with
    | false => simp [parseContent_eq, textOf, hdecode, hdeclares, bind, Except.bind]
    | true => simp [parseContent_eq, textOf, hdecode, hdeclares, hlatin1, bind, Except.bind]

end Reader

namespace Batch

/-- The graphs of a file that was formatted in place come back exactly when the file is read in a
character set that leaves all of their texts as they are: in UTF-8 where only ASCII was written
in Latin-1, or in Latin-1 where only ASCII was written in UTF-8. -/
theorem formatFile_reread_iff {reader : Reader} {tree tree' : FileTree} {path : String}
    {octets content : Octets} {gs : List Graph} (hread : tree.read path = .ok octets)
    (havoids : ∀ source, Reader.textOf octets = .ok source → AvoidsSignedPoint source)
    (hparse : parseFile reader tree path = .ok gs)
    (hformat : formatFile reader {} true tree path = (.ok content, tree')) :
    parseFile reader tree' path = .ok gs ↔
      (∀ g ∈ gs, g.charset = .ok .latin1 → g.IsAscii) ∨
        (∀ g ∈ gs, g.charset = .ok .utf8 → g.IsAscii) ∧
          (∀ source, Charset.utf8.decode content ≠ .ok source) ∧
          Reader.declaresLatin1 content = true := by
  obtain ⟨octets', parsed, hread', hparsed, rfl⟩ := parseFile_eq_ok_iff.1 hparse
  rw [hread, Except.ok.injEq] at hread'
  subst hread'
  obtain ⟨source, hsource, hparsed⟩ := Reader.parseContent_eq_ok_iff.1 hparsed
  obtain ⟨-, hne, hgraphs⟩ := Reader.graphs_of_parse (havoids source hsource) hparsed
  obtain ⟨hcanonical, hwrite⟩ := formatFile_eq_ok_iff.1 hformat
  obtain ⟨gs, hgs, hencode⟩ := canonical_eq_ok_iff.1 hcanonical
  rw [hparse, Except.ok.injEq] at hgs
  subst hgs
  obtain ⟨os, hstored, rfl⟩ := isStored_of_encodeAll hencode
  rw [← Reader.parseContent_flatten_iff (fun g hg => ⟨(hgraphs g hg).1, (hgraphs g hg).2.1⟩)
    (fun g hg => (hgraphs g hg).2.2) hne hstored, parseFile_eq_ok_iff,
    FileTree.read_write hwrite]
  simp

/-! ### A graph that declares its character set -/

/-- The characters of a text as octets of the same numbers. -/
def octetsOf (text : String) : Octets := text.toList.map fun c => UInt8.ofNat c.toNat

/-- A working directory that holds one file. -/
def treeOf (content : Octets) : FileTree := ⟨[(["a.dot"], .file content)]⟩

lemma read_treeOf (content : Octets) : (treeOf content).read "a.dot" = .ok content := by
  have hplace : (treeOf content).locate "a.dot" = .ok ["a.dot"] := rfl
  rw [FileTree.read, hplace]
  rfl

/-- A graph that declares a character set and has one node. -/
def declaring (label node : Ident) : Graph where
  kind := .graph
  strict := false
  body := ⟨none, .ofList [(Graph.charsetName, .text label)], [.node ⟨node, none, .empty⟩]⟩

lemma isDeclaration_declaring {label node : String} {x y : Lexeme} (hx : IsIdent [x] ⟨label⟩)
    (hy : IsIdent [y] ⟨node⟩) : ∃ d, IsDeclaration
      [.word .name "graph", .symbol .openBrace, .word .name "charset", .symbol .equals, x,
        .symbol .semicolon, y, .symbol .closeBrace] d ∧
      ∀ inheritDefaults, d.toGraph inheritDefaults = declaring ⟨label⟩ ⟨node⟩ := by
  have hname : IsIdent [.word .name "charset"] Graph.charsetName := .name (by decide +kernel)
  have hclauses := IsClauses.cons (.assign hname hx) (.semicolon (.cons (.node hy .none .nil) .nil))
  have hdoc : IsDeclaration _ ⟨false, .graph, none, _⟩ :=
    .intro .absent (keyword?_text .graph) .none hclauses
  refine ⟨_, hdoc, fun inheritDefaults => ?_⟩
  cases inheritDefaults <;> rfl

lemma parse_declaring {reader : Reader} {source label node : String} {x y : Lexeme}
    (hx : IsIdent [x] ⟨label⟩) (hy : IsIdent [y] ⟨node⟩)
    (h : (Tokens.ofString source).map (fun tokens => lexemes tokens.list) =
      .ok [.word .name "graph", .symbol .openBrace, .word .name "charset", .symbol .equals, x,
        .symbol .semicolon, y, .symbol .closeBrace]) :
    reader.parse source = .ok (.single (declaring ⟨label⟩ ⟨node⟩)) := by
  obtain ⟨d, hd, hgraph⟩ := isDeclaration_declaring hx hy
  rw [Reader.parse_of_lexemes h hd, hgraph]

lemma parseFile_declaring {reader : Reader} {tree : FileTree} {path source label node : String}
    {x y : Lexeme} (hread : tree.read path = .ok (Text.Utf8.encode source.toList))
    (hx : IsIdent [x] ⟨label⟩) (hy : IsIdent [y] ⟨node⟩)
    (h : (Tokens.ofString source).map (fun tokens => lexemes tokens.list) =
      .ok [.word .name "graph", .symbol .openBrace, .word .name "charset", .symbol .equals, x,
        .symbol .semicolon, y, .symbol .closeBrace]) :
    parseFile reader tree path = .ok [declaring ⟨label⟩ ⟨node⟩] := by
  have htext : Reader.textOf (Text.Utf8.encode source.toList) = .ok source := by
    rw [Reader.textOf, Reader.decode_utf8_eq_ok_iff.2 rfl]
  exact parseFile_eq_ok_iff.2 ⟨_, .single _, hread,
    Reader.parseContent_eq_ok_iff.2 ⟨source, htext, parse_declaring hx hy h⟩, rfl⟩

lemma formatFile_treeOf {reader : Reader} {octets content : Octets} {gs : List Graph}
    (hparse : parseFile reader (treeOf octets) "a.dot" = .ok gs)
    (hencode : encodeAll {} gs = .ok content) :
    formatFile reader {} true (treeOf octets) "a.dot" = (.ok content, treeOf content) :=
  formatFile_eq_ok_iff.2 ⟨canonical_eq_ok_iff.2 ⟨gs, hparse, hencode⟩, rfl⟩

/-- A graph in Latin-1 that is read in Latin-1 after formatting too. -/
theorem formatFile_reread_latin1 : ∃ octets content gs,
    (treeOf octets).read "a.dot" = .ok octets ∧
      (∀ source, Reader.textOf octets = .ok source → AvoidsSignedPoint source) ∧
      parseFile {} (treeOf octets) "a.dot" = .ok gs ∧
      formatFile {} {} true (treeOf octets) "a.dot" = (.ok content, treeOf content) ∧
      parseFile {} (treeOf content) "a.dot" = .ok gs := by
  let source := "graph\x7bcharset=latin1;\"é\"\x7d"
  let g := declaring ⟨"latin1"⟩ ⟨"\"é\""⟩
  let content := octetsOf "graph \x7b\ncharset=latin1;\n\"é\";\n\x7d\n"
  have hinvalid : Charset.utf8.decode (octetsOf source) = .error (.undecodable .utf8 22) := by
    decide +kernel
  have htext : Reader.textOf (octetsOf source) = .ok source := by
    have hdeclares : Reader.declaresLatin1 (octetsOf source) = true := by decide +kernel
    have hdecode : Charset.latin1.decode (octetsOf source) = .ok source := by decide +kernel
    rw [Reader.textOf, hinvalid]
    simp only [hdeclares, hdecode, if_true]
  have havoids : ∀ s, Reader.textOf (octetsOf source) = .ok s → AvoidsSignedPoint s := by
    have hsource : AvoidsSignedPoint source := by decide +kernel
    intro s hs
    rw [htext, Except.ok.injEq] at hs
    exact hs ▸ hsource
  have hparse : parseFile {} (treeOf (octetsOf source)) "a.dot" = .ok [g] := by
    refine parseFile_eq_ok_iff.2 ⟨_, .single g, read_treeOf _, ?_, rfl⟩
    rw [Reader.parseContent_eq, htext]
    exact parse_declaring (.name (by decide +kernel)) (.quoted (.nil _)) (by decide +kernel)
  have hencode : encodeAll {} [g] = .ok content := by decide +kernel
  have hformat := formatFile_treeOf hparse hencode
  have hcontent : Charset.utf8.decode content = .error (.undecodable .utf8 25) := by decide +kernel
  refine ⟨_, content, [g], read_treeOf _, havoids, hparse, hformat,
    (formatFile_reread_iff (read_treeOf _) havoids hparse hformat).2 (.inr ⟨?_, ?_, ?_⟩)⟩
  · intro g' hg' hutf8
    rw [List.mem_singleton.1 hg'] at hutf8
    exact absurd hutf8 (by decide +kernel)
  · intro s hs
    rw [hcontent] at hs
    cases hs
  · decide +kernel

/-- A graph in UTF-8 that declares Latin-1 by a label that is accepted where it is written and not
looked for where it is read. -/
theorem formatFile_loses_graph : ∃ octets content gs,
    (treeOf octets).read "a.dot" = .ok octets ∧
      (∀ source, Reader.textOf octets = .ok source → AvoidsSignedPoint source) ∧
      parseFile {} (treeOf octets) "a.dot" = .ok gs ∧
      formatFile {} {} true (treeOf octets) "a.dot" = (.ok content, treeOf content) ∧
      parseFile {} (treeOf content) "a.dot" ≠ .ok gs := by
  let source := "graph\x7bcharset=\"iso-ir-100\";\"é\"\x7d"
  let g := declaring ⟨"\"iso-ir-100\""⟩ ⟨"\"é\""⟩
  let content := octetsOf "graph \x7b\ncharset=\"iso-ir-100\";\n\"é\";\n\x7d\n"
  have htext : Reader.textOf (Utf8.encode source.toList) = .ok source := by
    rw [Reader.textOf, Reader.decode_utf8_eq_ok_iff.2 rfl]
  have havoids : ∀ s, Reader.textOf (Utf8.encode source.toList) = .ok s → AvoidsSignedPoint s := by
    have hsource : AvoidsSignedPoint source := by decide +kernel
    intro s hs
    rw [htext, Except.ok.injEq] at hs
    exact hs ▸ hsource
  have hparse : parseFile {} (treeOf (Utf8.encode source.toList)) "a.dot" = .ok [g] := by
    refine parseFile_eq_ok_iff.2 ⟨_, .single g, read_treeOf _, ?_, rfl⟩
    rw [Reader.parseContent_eq, htext]
    exact parse_declaring (.quoted (.nil _)) (.quoted (.nil _)) (by decide +kernel)
  have hencode : encodeAll {} [g] = .ok content := by decide +kernel
  have hformat := formatFile_treeOf hparse hencode
  have hcontent : Charset.utf8.decode content = .error (.undecodable .utf8 31) := by decide +kernel
  have hdeclares : Reader.declaresLatin1 content = false := by decide +kernel
  refine ⟨_, content, [g], read_treeOf _, havoids, hparse, hformat, fun hagain => ?_⟩
  obtain ⟨octets, parsed, hread, hcontent', -⟩ := parseFile_eq_ok_iff.1 hagain
  rw [read_treeOf, Except.ok.injEq] at hread
  subst hread
  rw [Reader.parseContent_eq, Reader.textOf, hcontent] at hcontent'
  simp [hdeclares, bind, Except.bind] at hcontent'

end Batch

end DotGraph
