import DotGraph.Keyed
import DotGraph.Toml.Reading

/-!
# TOML values

The values of a TOML document, each with its span in the text, and the rules for building its
tables. A table may be defined once: its origin says whether a header or a dotted key may still
add to it. Where a table is asked for, a moment (a date, a time or both) passes for the table of
one entry that holds its text.
-/

namespace DotGraph

namespace Toml

/-- How a table came to be: from its own header, from a longer header, from a dotted key, or
inside braces. -/
inductive Origin
  | header | implied | dotted | inline
deriving DecidableEq

structure Located (α : Type) where
  span : Span
  value : α

/-- What stands under a key, with the span of the key. -/
structure Entry (α : Type) extends Located α where
  keySpan : Span

end Toml

inductive Toml
  | text (s : String)
  | integer (n : Int)
  /-- A float, as it is written out in full. -/
  | float (text : String)
  | boolean (b : Bool)
  | moment (text : String)
  | array (elements : List (Toml.Located Toml))
  | table (origin : Toml.Origin) (entries : List (String × Toml.Entry Toml))
  /-- The tables of repeated headers in double brackets. -/
  | tables (bodies : List (Toml.Located (List (String × Toml.Entry Toml))))

namespace Toml

/-- The key under which a moment that passes for a table holds its text. -/
def momentKey : String := "$__toml_private_datetime"

/-- The entries of a value that is a table or passes for one. -/
def entries? (v : Located Toml) : Option (List (String × Entry Toml)) :=
  match v.value with
  | table _ entries => some entries
  | moment s => some [(momentKey, { span := v.span, value := .text s, keySpan := v.span })]
  | _ => none

/-- The name of the type of a value that is not a table with a header or dotted keys. -/
def kind : Toml → String
  | text _ => "string"
  | integer _ => "integer"
  | float _ => "float"
  | boolean _ => "boolean"
  | moment _ => "datetime"
  | array _ => "array"
  | table _ _ => "inline table"
  | tables _ => "array of tables"

abbrev Key := Located String

structure Table where
  origin : Origin
  span : Span
  entries : List (String × Entry Toml)

/-- A table without entries that is made for a key. -/
def Table.ofKey (origin : Origin) (key : Key) : Table := ⟨origin, key.span, []⟩

/-- Set a key. -/
def Table.put (t : Table) (key : Key) (span : Span) (v : Toml) : Table :=
  { t with entries := Keyed.put key.value { span, value := v, keySpan := key.span } t.entries }

def Table.putTable (t : Table) (key : Key) (sub : Table) : Table :=
  t.put key sub.span (.table sub.origin sub.entries)

/-- Set a key to the tables of repeated headers; their span goes from the first to the last. -/
def Table.putTables (t : Table) (key : Key)
    (bodies : List (Located (List (String × Entry Toml)))) : Table :=
  let span := match bodies.head?, bodies.getLast? with
    | some first, some last => ⟨first.span.start, last.span.stop⟩
    | _, _ => key.span
  t.put key span (.tables bodies)

/-- How a path is written: in a header, before a value on a line of its own, or before a value
inside braces. -/
inductive Route
  | header | dotted | braced
deriving DecidableEq

/-- The error of a path that runs into a value that is no table. -/
def blocked (path : List Key) (v : Toml) : Except Cause α :=
  .error (.notTable (path.map Located.value) v.kind)

/-- Change the table at a path, making the tables on the way that are missing. A path of dotted
keys may not enter a table that has a header or braces of its own. -/
def Table.modifyAt (route : Route) (f : Table → Except Cause Table) (behind : List Key) :
    List Key → Table → Except Cause Table
  | [], t => f t
  | key :: path, t =>
    let behind := behind ++ [key]
    match Keyed.find? key.value t.entries with
    | none => do
      let sub := ofKey (if route = .header then .implied else .dotted) key
      .ok (t.putTable key (← modifyAt route f behind path sub))
    | some entry =>
      let key : Key := ⟨entry.keySpan, key.value⟩
      match entry.value with
      | .table origin entries =>
        if origin = .inline && route ≠ .braced then blocked behind entry.value
        else if origin = .inline || (origin = .header && route ≠ .header) then
          .error (.duplicate key.value none)
        else do
          .ok (t.putTable key (← modifyAt route f behind path ⟨origin, entry.span, entries⟩))
      | .tables bodies => match bodies.reverse with
        | [] => .ok t
        | last :: earlier => do
          let sub ← modifyAt route f behind path ⟨.header, last.span, last.value⟩
          .ok (t.putTables key (earlier.reverse ++ [⟨sub.span, sub.entries⟩]))
      | v => blocked behind v

/-- Add a key that is not there yet to a table that is the one its dotted path made. The home is
the path of the header in force, where there is one. -/
def Table.insert (isDotted : Bool) (home : Option (List String)) (key : Key) (v : Located Toml)
    (t : Table) : Except Cause Table :=
  if decide (t.origin = .dotted) != isDotted then .error (.duplicate key.value none)
  else if (Keyed.find? key.value t.entries).isSome then .error (.duplicate key.value home)
  else .ok (t.put key v.span v.value)

/-- Set a dotted key, by its path and its last part, in the table that it stands in. -/
def Table.assign (route : Route) (home : Option (List String)) (path : List Key) (key : Key)
    (v : Located Toml) (t : Table) : Except Cause Table :=
  t.modifyAt route (insert (!path.isEmpty) home key v) [] path

/-- A key as it is written when its spelling is not known. -/
def spelled (key : String) : String :=
  let cs := key.toList
  if !cs.isEmpty && cs.all (fun c => c.isAlphanum || c = '_' || c = '-') then key
  else "\"" ++ String.join (cs.map escaped) ++ "\""
where
  escaped (c : Char) : String :=
    match c with
    | '\x08' => "\\b"
    | '\t' => "\\t"
    | '\n' => "\\n"
    | '\x0c' => "\\f"
    | '\r' => "\\r"
    | '"' => "\\\""
    | '\\' => "\\\\"
    | c => if c.toNat < 0x20 || c.toNat = 0x7F then "\\u00" ++ twoDigits c.toNat else c.toString
  twoDigits (n : Nat) : String :=
    String.ofList [(Nat.digitChar (n / 16)).toUpper, (Nat.digitChar (n % 16)).toUpper]

/-- The error of a header for something that is there already. -/
def redefined (path : List Key) (key : Key) : Except Cause α :=
  .error (.duplicate (spelled key.value) (some (path.map Located.value)))

/-- Open the table of a header. A table that a longer header implied may still get its own, and
then counts as the latest. -/
def Table.openTable (path : List Key) (key : Key) (span : Span) (root : Table) :
    Except Cause Table :=
  root.modifyAt .header (fun t => match Keyed.find? key.value t.entries with
    | none => .ok (t.putTable key ⟨.header, span, []⟩)
    | some entry => match entry.value with
      | .table .implied entries =>
        let t := { t with entries := Keyed.erase key.value t.entries }
        .ok (t.putTable key ⟨.header, span, entries⟩)
      | _ => redefined path key) [] path

/-- Open one more table of a header in double brackets. -/
def Table.openElement (path : List Key) (key : Key) (span : Span) (root : Table) :
    Except Cause Table :=
  root.modifyAt .header (fun t => match Keyed.find? key.value t.entries with
    | none => .ok (t.putTables key [⟨span, []⟩])
    | some entry => match entry.value with
      | .tables bodies => .ok (t.putTables ⟨entry.keySpan, key.value⟩ (bodies ++ [⟨span, []⟩]))
      | _ => redefined path key) [] path

end Toml

end DotGraph
