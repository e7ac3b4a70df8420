import DotGraph.Keyword

/-!
# Identifiers

An identifier keeps the text it was given, quotes and all: `node` and `"node"` are different.
It is written verbatim when it is a literal or a bare word already, and quoted otherwise.
-/

namespace DotGraph

/-- Raw identifier text. -/
structure Ident where
  text : String
deriving DecidableEq

namespace Ident

def ofInt (n : Int) : Ident := ⟨toString n⟩

/-- ASCII letters, the underscore and every character beyond ASCII. -/
def isNameStart (c : Char) : Bool := c.isAlpha || c == '_' || 128 ≤ c.toNat

def isNameChar (c : Char) : Bool := isNameStart c || c.isDigit

def isNameText : List Char → Bool
  | [] => false
  | c :: cs => isNameStart c && cs.all isNameChar

/-- An optional sign, then digits, with a point before, between or after them. -/
def isNumeralText (cs : List Char) : Bool :=
  let digits := match cs with
    | '-' :: rest => rest
    | _ => cs
  let whole := digits.takeWhile (· != '.')
  match digits.dropWhile (· != '.') with
  | [] => !whole.isEmpty && whole.all Char.isDigit
  | _ :: fraction =>
    whole.all Char.isDigit && fraction.all Char.isDigit && !(whole.isEmpty && fraction.isEmpty)

/-- Escape the quotes and newlines of plain text. `escaping` says that an unpaired backslash
stands before the text; one that is left at the end is doubled, so it cannot reach the quote
that closes the literal. -/
def escape (escaping : Bool) : List Char → List Char
  | [] => if escaping then ['\\'] else []
  | c :: cs =>
    let tail := escape (c == '\\' && !escaping) cs
    if c = '"' && !escaping then '\\' :: '"' :: tail
    else if c = '\n' then '\\' :: 'n' :: tail
    else c :: tail

/-- The text of a literal with each escaped quote replaced by the quote. -/
def unescape : List Char → List Char
  | '\\' :: '"' :: cs => '"' :: unescape cs
  | c :: cs => c :: unescape cs
  | [] => []

/-- The quoted literal of plain text. -/
def quote (text : String) : Ident := ⟨String.ofList ('"' :: (escape false text.toList ++ ['"']))⟩

/-- The characters between the quotes of a text whose closing quote is not escaped. -/
def quotedBody? : List Char → Option (List Char)
  | '"' :: cs => match cs.reverse with
    | '"' :: body => if (body.takeWhile (· == '\\')).length % 2 = 0 then some body.reverse else none
    | _ => none
  | _ => none

def isQuoted (x : Ident) : Bool := (quotedBody? x.text.toList).isSome

def isHtml (x : Ident) : Bool :=
  x.text.toList.head? == some '<' && x.text.toList.getLast? == some '>'

def isKeyword (x : Ident) : Bool := (Keyword.ofText? x.text).isSome

def isNumeral (x : Ident) : Bool := isNumeralText x.text.toList

/-- A name or a numeral: a word that needs no quotes, keywords included. -/
def isBare (x : Ident) : Bool := isNameText x.text.toList || x.isNumeral

/-- The text without its quotes and with the escaped quotes restored. -/
def unquoted (x : Ident) : String :=
  match quotedBody? x.text.toList with
  | some body => String.ofList (unescape body)
  | none => x.text

/-- Literals and bare words that are no keywords stay as they are; all else is quoted. -/
def toDot (x : Ident) : String :=
  if x.isQuoted || x.isHtml || (x.isBare && !x.isKeyword) then x.text else (quote x.text).text

/-- Plain text as a bare word where it is one, and as a quoted literal otherwise. -/
def quotedIfNeeded (text : String) : Ident :=
  if isBare ⟨text⟩ && !isKeyword ⟨text⟩ then ⟨text⟩ else quote text

end Ident

end DotGraph
