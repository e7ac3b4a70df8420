import DotGraph.Text.Excerpt

/-!
# Readings

What is read at the front of a text and what is left of it, or where reading stopped and why. A
fault that is settled ends all reading; after another one a different way may be tried.
-/

namespace DotGraph.Toml

/-- What is wrong with something that can be read. -/
inductive Cause
  /-- A key that is there already, in the table of a path where that is known. -/
  | duplicate (key : String) (table : Option (List String))
  | notTable (path : List String) (kind : String)
  | outOfRange
  | tooLarge
  | tooSmall
  | tooDeep

def ticked (s : String) : String := "\x60" ++ s ++ "\x60"

def Cause.message : Cause → String
  | duplicate key none => "duplicate key " ++ ticked key
  | duplicate key (some []) => "duplicate key " ++ ticked key ++ " in document root"
  | duplicate key (some table) =>
    "duplicate key " ++ ticked key ++ " in table " ++ ticked (String.intercalate "." table)
  | notTable path kind =>
    "dotted key " ++ ticked (String.intercalate "." path) ++
      " attempted to extend non-table type (" ++ kind ++ ")"
  | outOfRange => "value is out of range"
  | tooLarge => "number too large to fit in target type"
  | tooSmall => "number too small to fit in target type"
  | tooDeep => "recursion limit exceeded"

/-- Why reading stopped. -/
structure Fault where
  /-- What is left of the text where it stopped. -/
  rest : List Char
  /-- No other way of reading may be tried. -/
  settled : Bool := false
  /-- What was being read. -/
  subject : Option String := none
  /-- What could have stood there. -/
  expected : List String := []
  cause : Option Cause := none

def Fault.message (f : Fault) : String :=
  let subject := f.subject.toList.map ("invalid " ++ ·)
  let expected :=
    if f.expected.isEmpty then [] else ["expected " ++ String.intercalate ", " f.expected]
  String.intercalate "\n" (subject ++ expected ++ f.cause.toList.map Cause.message)

/-- Something read at the front of a text, and what is left of the text. -/
abbrev Read (α : Type) := α × List Char

def stop (rest : List Char) : Except Fault α := .error { rest }

def fail (cause : Cause) (rest : List Char) : Except Fault α := .error { rest, cause }

/-- Let no other way be tried. -/
def settle (r : Except Fault α) : Except Fault α := r.mapError ({ · with settled := true })

/-- Say what was being read, unless something inside it is named. -/
def about (subject : String) (r : Except Fault α) : Except Fault α :=
  r.mapError fun f => { f with subject := f.subject.or (some subject) }

/-- Add what could have stood where reading stopped. -/
def wanting (expected : List String) (r : Except Fault α) : Except Fault α :=
  r.mapError fun f => { f with expected := f.expected ++ expected }

/-- The second way of reading where the first one stopped. -/
def orElse (r : Except Fault α) (other : Unit → Except Fault α) : Except Fault α :=
  match r with
  | .error f => if f.settled then r else other ()
  | .ok _ => r

/-- Something at the front of a text that may be missing. -/
def attempt (cs : List Char) (r : Except Fault (Read α)) : Except Fault (Read (Option α)) :=
  orElse (r.map fun r => (some r.1, r.2)) fun _ => .ok (none, cs)

/-- Put an element in front of a list that is read. -/
def push (a : α) (r : Except Fault (Read (List α))) : Except Fault (Read (List α)) :=
  r.map fun r => (a :: r.1, r.2)

/-- A character of a class. -/
def char (p : Char → Bool) (cs : List Char) : Except Fault (Read Char) :=
  match cs with
  | c :: rest => if p c then .ok (c, rest) else stop cs
  | [] => stop cs

/-- One character and no other. -/
def one (c : Char) (cs : List Char) : Except Fault (List Char) :=
  (char (· = c) cs).map Prod.snd

/-- Exactly the characters of a word. -/
def word (w : String) (cs : List Char) : Except Fault (List Char) :=
  if w.toList.isPrefixOf cs then .ok (cs.drop w.length) else stop cs

end DotGraph.Toml
