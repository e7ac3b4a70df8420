import DotGraph.Proofs.FormatInPlace

/-!
# Drawing files

The graphs of a file are drawn one after the other, and the output is written once, when all of
them are drawn. The first failure ends the task: nothing more is given to the renderer and no file
changes.
-/

namespace DotGraph.Batch

open Grammar

/-- The graphs are written and drawn one by one: the octets of each are given to the renderer,
which answers each with a drawing. -/
inductive Draws (renderer : Renderer) (request : DrawRequest) :
    List Graph → List Octets → List Octets → Prop
  | nil : Draws renderer request [] [] []
  | cons {g : Graph} {gs : List Graph} {dot drawing : Octets} {dots drawings : List Octets}
      (hdot : g.toOctets = .ok dot) (hdrawing : renderer dot request = .ok drawing)
      (h : Draws renderer request gs dots drawings) :
      Draws renderer request (g :: gs) (dot :: dots) (drawing :: drawings)

/-- A graph cannot be written, so that nothing is given to the renderer, or the renderer refuses
what it is given. -/
inductive Fails (renderer : Renderer) (request : DrawRequest) :
    Graph → List Octets → DotError → Prop
  | unwritable {g : Graph} {e : DotError} (hdot : g.toOctets = .error e) :
      Fails renderer request g [] e
  | refused {g : Graph} {dot : Octets} {e : DotError} (hdot : g.toOctets = .ok dot)
      (hdrawing : renderer dot request = .error e) : Fails renderer request g [dot] e

/-- What comes of drawing a file into another one, by the first thing that fails. -/
inductive IsDrawn (reader : Reader) (renderer : Renderer) (request : DrawRequest)
    (tree : FileTree) (input output : String) : Drawn → Prop
  /-- The input is not read. -/
  | unread {f : Failure} (h : parseFile reader tree input = .error f) :
      IsDrawn reader renderer request tree input output ⟨[], .error f, tree⟩
  /-- A graph is not drawn. The graphs in front of it were given to the renderer, and none behind
  it. -/
  | undrawn {before after : List Graph} {g : Graph} {dots drawings last : List Octets}
      {e : DotError} (h : parseFile reader tree input = .ok (before ++ g :: after))
      (hbefore : Draws renderer request before dots drawings)
      (hg : Fails renderer request g last e) :
      IsDrawn reader renderer request tree input output
        ⟨dots ++ last, .error (.during (.drawing input request.program) (.error e)), tree⟩
  /-- The output is not written. -/
  | unwritten {gs : List Graph} {dots drawings : List Octets} {fault : FileFault}
      (h : parseFile reader tree input = .ok gs) (hgs : Draws renderer request gs dots drawings)
      (hwrite : tree.write output drawings.flatten = .error fault) :
      IsDrawn reader renderer request tree input output
        ⟨dots, .error (.during (.writing output) (.file fault)), tree⟩
  /-- The output holds the drawings one after the other, and nothing else changes. -/
  | written {gs : List Graph} {dots drawings : List Octets} {tree' : FileTree}
      (h : parseFile reader tree input = .ok gs) (hgs : Draws renderer request gs dots drawings)
      (hwrite : tree.write output drawings.flatten = .ok tree')
      (hread : tree'.read output = .ok drawings.flatten)
      (hothers : ∀ place, tree'.locate output ≠ .ok place →
        tree'.find? place = tree.find? place) :
      IsDrawn reader renderer request tree input output
        ⟨dots, .ok drawings.flatten.length, tree'⟩

variable {reader : Reader} {renderer : Renderer} {request : DrawRequest}

/-- Graphs are drawn, up to one that fails if there is one. -/
lemma draws_or_fails (renderer : Renderer) (request : DrawRequest) (gs : List Graph) :
    (∃ dots drawings, Draws renderer request gs dots drawings) ∨
      ∃ before g after dots drawings last e, gs = before ++ g :: after ∧
        Draws renderer request before dots drawings ∧ Fails renderer request g last e := by
  induction gs with
  | nil => exact .inl ⟨[], [], .nil⟩
  | cons g gs ih =>
    cases hdot : g.toOctets with
    | error e => exact .inr ⟨[], g, gs, [], [], [], e, rfl, .nil, .unwritable hdot⟩
    | ok dot =>
      cases hdrawing : renderer dot request with
      | error e => exact .inr ⟨[], g, gs, [], [], [dot], e, rfl, .nil, .refused hdot hdrawing⟩
      | ok drawing =>
        rcases ih with ⟨dots, drawings, h⟩ |
          ⟨before, g', after, dots, drawings, last, e, rfl, h, h'⟩
        · exact .inl ⟨_, _, .cons hdot hdrawing h⟩
        · exact .inr ⟨g :: before, g', after, _, _, last, e, rfl, .cons hdot hdrawing h, h'⟩

lemma Draws.drawAll_append {gs : List Graph} {dots drawings : List Octets}
    (h : Draws renderer request gs dots drawings) (others : List Graph) :
    drawAll renderer request (gs ++ others) =
      (dots ++ (drawAll renderer request others).1,
        (drawAll renderer request others).2.map (drawings.flatten ++ ·)) := by
  induction h with
  | nil => cases hothers : drawAll renderer request others with | mk given result =>
    cases result <;> simp [hothers, Except.map]
  | cons hdot hdrawing _ ih =>
    simp only [List.cons_append, drawAll, hdot, hdrawing, ih]
    cases (drawAll renderer request others).2 <;> simp [Except.map]

lemma Draws.drawAll_eq {gs : List Graph} {dots drawings : List Octets}
    (h : Draws renderer request gs dots drawings) :
    drawAll renderer request gs = (dots, .ok drawings.flatten) := by
  have happend := h.drawAll_append []
  simpa [drawAll, Except.map] using happend

lemma Draws.drawAll_fails {before after : List Graph} {g : Graph} {dots drawings last : List Octets}
    {e : DotError} (h : Draws renderer request before dots drawings)
    (hg : Fails renderer request g last e) :
    drawAll renderer request (before ++ g :: after) = (dots ++ last, .error e) := by
  rw [h.drawAll_append]
  cases hg with
  | unwritable hdot => simp [drawAll, hdot, Except.map]
  | refused hdot hdrawing => simp [drawAll, hdot, hdrawing, Except.map]

/-- A file is drawn into another one as far as nothing fails, and only a drawing of all its graphs
is written. -/
theorem drawFile_eq_iff {tree : FileTree} {input output : String} {drawn : Drawn}
    (hpaths : Path.same input output = false) :
    drawFile reader renderer request tree input output = drawn ↔
      IsDrawn reader renderer request tree input output drawn := by
  constructor
  · rintro rfl
    rw [drawFile, hpaths]
    cases hparse : parseFile reader tree input with
    | error f => exact .unread hparse
    | ok gs =>
      rcases draws_or_fails renderer request gs with ⟨dots, drawings, hgs⟩ |
        ⟨before, g, after, dots, drawings, last, e, rfl, hbefore, hg⟩
      · simp only [Bool.false_eq_true, if_false, hgs.drawAll_eq]
        cases hwrite : tree.write output drawings.flatten with
        | error fault => exact .unwritten hparse hgs hwrite
        | ok tree' =>
          exact .written hparse hgs hwrite (FileTree.read_write hwrite) fun place hplace =>
            FileTree.find?_write hwrite hplace
      · simp only [Bool.false_eq_true, if_false, hbefore.drawAll_fails hg]
        exact .undrawn hparse hbefore hg
  · intro h
    rw [drawFile, hpaths]
    cases h with
    | unread h => simp [h]
    | undrawn h hbefore hg => simp [h, hbefore.drawAll_fails hg]
    | unwritten h hgs hwrite => simp [h, hgs.drawAll_eq, hwrite]
    | written h hgs hwrite => simp [h, hgs.drawAll_eq, hwrite]

/-- The second graph cannot be written in the character set that it declares. The output that was
there stays. -/
theorem drawFile_eq_iff_unencodable :
    let source := "graph\x7bcharset=latin1;\"é\"\x7dgraph\x7bcharset=ascii;\"é\"\x7d"
    let tree : FileTree := ⟨[(["a.dot"], .file (Text.Utf8.encode source.toList)),
      (["a.ps"], .file (octetsOf "%!PS"))]⟩
    Path.same "a.dot" "a.ps" = false ∧
      drawFile {} (fun dot _ => .ok dot.reverse) {} tree "a.dot" "a.ps" =
        ⟨[octetsOf "graph \x7b\ncharset=latin1;\n\"é\";\n\x7d\n"],
          .error (.during (.drawing "a.dot" "dot") (.error (.unencodable .ascii 'é'))), tree⟩ := by
  intro source tree
  have hpaths : Path.same "a.dot" "a.ps" = false := by decide +kernel
  have hlabel : IsIdent [.word .name "latin1"] ⟨"latin1"⟩ := .name (by decide +kernel)
  have hlabel' : IsIdent [.word .name "ascii"] ⟨"ascii"⟩ := .name (by decide +kernel)
  have hnode : IsIdent [.word .quoted "\"é\""] ⟨"\"é\""⟩ := .quoted (.nil _)
  obtain ⟨d, hd, hlatin1⟩ := isDeclaration_declaring hlabel hnode
  obtain ⟨d', hd', hascii⟩ := isDeclaration_declaring hlabel' hnode
  have hdocument : Document.ofString source = .ok [d, d'] :=
    ofString_of_lexemes (by decide +kernel) ⟨.cons hd (.cons hd' .nil), List.cons_ne_nil _ _⟩
  have hparse : parseFile {} tree "a.dot" =
      .ok ([declaring ⟨"latin1"⟩ ⟨"\"é\""⟩] ++ declaring ⟨"ascii"⟩ ⟨"\"é\""⟩ :: []) := by
    refine parseFile_eq_ok_iff.2 ⟨Text.Utf8.encode source.toList, .many _, by rfl, ?_, rfl⟩
    refine Reader.parseContent_eq_ok_iff.2 ⟨source, ?_, Reader.parse_eq_ok_iff.2
      ⟨_, hdocument, ?_⟩⟩
    · rw [Reader.textOf, Reader.decode_utf8_eq_ok_iff.2 rfl]
    · simp [Reader.graphs, hlatin1, hascii, Parsed.ofList]
  exact ⟨hpaths, (drawFile_eq_iff hpaths).2 (.undrawn hparse
    (.cons (by decide +kernel) rfl .nil) (.unwritable (by decide +kernel)))⟩

end DotGraph.Batch
