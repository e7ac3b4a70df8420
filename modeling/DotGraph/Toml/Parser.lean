import DotGraph.Toml.Quoted

/-!
# Reading TOML

Documents of TOML 1.0, as the table at their root. Values nest to a fixed depth. Loops stop where
they make no progress.
-/

namespace DotGraph.Toml.Parser

def dropSpaces (cs : List Char) : List Char := cs.dropWhile Quoted.isSpace

/-- The text behind a comment that may stand at its front. -/
def dropComment (cs : List Char) : List Char :=
  match cs with
  | '#' :: rest => rest.dropWhile Quoted.isPlain
  | _ => cs

/-- The end of a line or of the text. -/
def lineEnd : List Char → Except Fault (List Char)
  | [] => .ok []
  | '\n' :: cs => .ok cs
  | '\r' :: '\n' :: cs => .ok cs
  | cs => stop cs

/-- What may stand behind a value or a header: blanks, a comment, the end of the line. -/
def endLine (cs : List Char) : Except Fault (List Char) :=
  wanting ["newline", ticked "#"] (lineEnd (dropComment (dropSpaces cs)))

/-- A newline and no end of the text. -/
def newline : List Char → Except Fault (List Char)
  | '\n' :: cs => .ok cs
  | '\r' :: '\n' :: cs => .ok cs
  | '\r' :: cs => stop cs
  | cs => stop cs

/-- Drop blanks, newlines and comments. The bound is the number of characters. -/
def dropLines : Nat → List Char → Except Fault (List Char)
  | 0, cs => .ok cs
  | bound + 1, cs =>
    match dropSpaces cs with
    | '#' :: cs => do dropLines bound (← newline (cs.dropWhile Quoted.isPlain))
    | '\n' :: cs => dropLines bound cs
    | '\r' :: cs => do dropLines bound (← newline ('\r' :: cs))
    | cs => .ok cs

def isKeyChar (c : Char) : Bool := c.isAlphanum || c = '_' || c = '-'

/-- A bare or quoted part of a key, with the blanks around it. -/
def keyPart (cs : List Char) : Except Fault (Read Key) := do
  let start := dropSpaces cs
  let (name, rest) ← match start with
    | '"' :: _ => Quoted.readLine start
    | '\'' :: _ => Quoted.readLine start
    | _ =>
      let word := start.takeWhile isKeyChar
      if word.isEmpty then stop start
      else .ok (String.ofList word, start.dropWhile isKeyChar)
  .ok (⟨⟨start, rest⟩, name⟩, dropSpaces rest)

/-- More parts of a dotted key; a point that no part follows is left. The bound is the number of
parts. -/
def moreParts : Nat → List Char → Except Fault (Read (List Key))
  | bound + 1, '.' :: cs =>
    match keyPart cs with
    | .ok (part, rest) => push part (moreParts bound rest)
    | .error f => if f.settled then .error f else .ok ([], '.' :: cs)
  | _, cs => .ok ([], cs)

/-- The number of parts that a key may have and of brackets that may be open. -/
def depthLimit : Nat := 79

/-- A dotted key with the blanks around it, as its path and its last part. -/
def key (cs : List Char) : Except Fault (Read (List Key × Key)) := do
  let ((first, parts), rest) ← about "key" do
    let (first, rest) ← keyPart cs
    let (parts, rest) ← moreParts rest.length rest
    .ok ((first, parts), rest)
  if depthLimit ≤ parts.length then fail .tooDeep cs
  else match parts.reverse with
    | [] => .ok (([], first), rest)
    | last :: between => .ok ((first :: between.reverse, last), rest)

/-- The mark between a key and its value. -/
def equals (cs : List Char) : Except Fault (List Char) :=
  wanting [ticked ".", ticked "="] (one '=' cs)

/-- A key with the path to it, and a value for it. -/
abbrev Pair := (List Key × Key) × Located Toml

/-- A value with its span, which goes from a given start to where reading ended. -/
def located (start : List Char) (r : Except Fault (Read Toml)) :
    Except Fault (Read (Located Toml)) :=
  r.map fun r => (⟨⟨start, r.2⟩, r.1⟩, r.2)

/-- The table of the pairs in braces. -/
def tableOfPairs (span : Span) (pairs : List Pair) : Except Cause Table :=
  pairs.foldlM (fun t p => t.assign .braced none p.1.1 p.1.2 p.2) ⟨.inline, span, []⟩

mutual

/-- A value that may open as many more brackets as the depth says. -/
def value (depth : Nat) (cs : List Char) : Except Fault (Read Toml) :=
  match depth, cs with
  | _, '"' :: _ => (Quoted.read cs).map fun r => (.text r.1, r.2)
  | _, '\'' :: _ => (Quoted.read cs).map fun r => (.text r.1, r.2)
  | 0, '[' :: _ => settle (fail .tooDeep cs)
  | 0, '\x7b' :: _ => settle (fail .tooDeep cs)
  | depth + 1, '[' :: cs => settle do
    let (vs, rest) ← elements depth cs cs
    match ← dropLines (rest.length + 1) rest with
    | ']' :: rest => .ok (.array vs, rest)
    | rest => about "array" (wanting [ticked "]"] (stop rest))
  | depth + 1, '\x7b' :: cs => settle do
    let (ps, rest) ← pairs depth cs cs
    let rest := dropSpaces rest
    match tableOfPairs ⟨cs, rest⟩ ps with
    | .error cause => fail cause cs
    | .ok t => match rest with
      | '\x7d' :: rest => .ok (.table .inline t.entries, rest)
      | _ => about "inline table" (wanting [ticked "\x7d"] (stop rest))
  | _, _ => Scalar.read cs
termination_by (depth, 0, cs.length)

/-- The elements of an array, up to where no element can be read. A last comma is passed over.
Without an element the text is left as it was before. -/
def elements (depth : Nat) (before cs : List Char) : Except Fault (Read (List (Located Toml))) :=
  let element : Except Fault (Read (Located Toml)) := do
    let start ← dropLines (cs.length + 1) cs
    let (v, rest) ← located start (value depth start)
    .ok (v, ← dropLines (rest.length + 1) rest)
  match element with
  | .error f => if f.settled then .error f else .ok ([], before)
  | .ok (v, ',' :: rest) =>
    if rest.length < cs.length then push v (elements depth rest rest) else stop rest
  | .ok (v, rest) => .ok ([v], rest)
termination_by (depth, 1, cs.length)

/-- The pairs of an inline table, up to where no pair can be read. A last comma is left. -/
def pairs (depth : Nat) (before cs : List Char) : Except Fault (Read (List Pair)) :=
  let pair : Except Fault (Read Pair) := do
    let (key, rest) ← key cs
    settle do
      let start := dropSpaces (← equals rest)
      let (v, rest) ← located start (value depth start)
      .ok ((key, v), dropSpaces rest)
  match pair with
  | .error f => if f.settled then .error f else .ok ([], before)
  | .ok (p, ',' :: rest) =>
    if rest.length < cs.length then push p (pairs depth (',' :: rest) rest) else stop rest
  | .ok (p, rest) => .ok ([p], rest)
termination_by (depth, 1, cs.length)

end

/-- A document being read: its root, and the header under which the next keys stand. -/
structure State where
  root : Table
  header : List Key := []

/-- Go on with the root that results, or stop at the start of what asked for it. -/
def State.build (start : List Char) (root : Except Cause Table) (header : List Key) :
    Except Fault State :=
  match root with
  | .ok root => .ok ⟨root, header⟩
  | .error cause => fail cause start

/-- A header in single or double brackets, with its line. -/
def header (state : State) (start : List Char) : Except Fault (Read State) :=
  settle <| about "table header" <| match start with
  | '[' :: '[' :: cs => do
    let ((path, last), rest) ← key cs
    let behind ← wanting [ticked ".", ticked "]]"] (word "]]" rest)
    let rest ← endLine behind
    let root := state.root.openElement path last ⟨start, behind⟩
    .ok (← State.build start root (path ++ [last]), rest)
  | '[' :: c :: cs => do
    let ((path, last), rest) ← key (c :: cs)
    let behind ← wanting [ticked ".", ticked "]"] (one ']' rest)
    let rest ← endLine behind
    let root := state.root.openTable path last ⟨start, behind⟩
    .ok (← State.build start root (path ++ [last]), rest)
  | cs => stop cs

/-- A key with its value, set under the header in force, with its line. -/
def assignment (state : State) (start : List Char) : Except Fault (Read State) :=
  settle do
    let ((path, last), rest) ← key start
    let valueStart := dropSpaces (← equals rest)
    let (v, rest) ← located valueStart (value depthLimit valueStart)
    let rest ← endLine rest
    let home := state.header.map Located.value
    let set (t : Table) : Except Cause Table := do
      let t ← t.assign .dotted (some home) path last v
      .ok { t with span := ⟨t.span.start, v.span.stop⟩ }
    let root := state.root.modifyAt .header set [] state.header
    .ok (← State.build start root state.header, rest)

/-- The lines from here on. The bound is the number of characters. -/
def lines : Nat → State → List Char → Except Fault Table
  | 0, state, _ => .ok state.root
  | bound + 1, state, cs =>
    match dropSpaces cs with
    | [] => .ok state.root
    | '\n' :: cs => lines bound state cs
    | '\r' :: '\n' :: cs => lines bound state cs
    | '\r' :: cs => stop ('\r' :: cs)
    | '#' :: cs => do lines bound state (← lineEnd (cs.dropWhile Quoted.isPlain))
    | '[' :: cs => do
      let (state, rest) ← header state ('[' :: cs)
      lines bound state rest
    | cs => do
      let (state, rest) ← assignment state cs
      lines bound state rest

end Parser

/-- The root table of a document. A byte order mark at the start is skipped. -/
def ofString (source : String) : Except Fault Table :=
  let cs := match source.toList with
    | '\uFEFF' :: cs => cs
    | cs => cs
  Parser.lines (cs.length + 1) { root := ⟨.header, ⟨cs, cs⟩, []⟩ } cs

end DotGraph.Toml
