/-!
# JSON text

JSON values whose members keep their order, and their text, compact or indented by two blanks.
-/

namespace DotGraph

inductive Json
  | null
  | boolean (b : Bool)
  | string (s : String)
  | array (elements : List Json)
  | object (members : List (String × Json))

namespace Json

def ofOption (f : α → Json) : Option α → Json
  | none => null
  | some x => f x

def hexDigit (n : Nat) : Char := Nat.digitChar n

def escapeChar (c : Char) : List Char :=
  match c with
  | '"' => ['\\', '"']
  | '\\' => ['\\', '\\']
  | '\x08' => ['\\', 'b']
  | '\x0c' => ['\\', 'f']
  | '\n' => ['\\', 'n']
  | '\r' => ['\\', 'r']
  | '\t' => ['\\', 't']
  | c =>
    if c.toNat < 0x20 then
      ['\\', 'u', '0', '0', hexDigit (c.toNat / 16), hexDigit (c.toNat % 16)]
    else [c]

/-- A string in quotes. Only quotes, backslashes and control characters are escaped. -/
def quoted (s : String) : String :=
  String.ofList ('"' :: (s.toList.flatMap escapeChar ++ ['"']))

mutual

def compact : Json → String
  | null => "null"
  | boolean b => if b then "true" else "false"
  | string s => quoted s
  | array elements => "[" ++ compactElements "" elements ++ "]"
  | object members => "\x7b" ++ compactMembers "" members ++ "\x7d"
termination_by structural j => j

def compactElements (lead : String) : List Json → String
  | [] => ""
  | x :: xs => lead ++ compact x ++ compactElements "," xs
termination_by structural xs => xs

def compactMembers (lead : String) : List (String × Json) → String
  | [] => ""
  | x :: xs => lead ++ compactMember x ++ compactMembers "," xs
termination_by structural xs => xs

def compactMember : String × Json → String
  | (name, value) => quoted name ++ ":" ++ compact value
termination_by structural x => x

end

/-- A new line, indented to a level. -/
def newline (level : Nat) : String := "\n" ++ String.ofList (List.replicate (2 * level) ' ')

mutual

/-- The indented text of a value that stands at a level. -/
def indented (level : Nat) : Json → String
  | null => "null"
  | boolean b => if b then "true" else "false"
  | string s => quoted s
  | array [] => "[]"
  | array (x :: xs) =>
    "[" ++ newline (level + 1) ++ indented (level + 1) x ++ indentedElements (level + 1) xs ++
      newline level ++ "]"
  | object [] => "\x7b\x7d"
  | object (x :: xs) =>
    "\x7b" ++ newline (level + 1) ++ indentedMember (level + 1) x ++
      indentedMembers (level + 1) xs ++ newline level ++ "\x7d"
termination_by structural j => j

def indentedElements (level : Nat) : List Json → String
  | [] => ""
  | x :: xs => "," ++ newline level ++ indented level x ++ indentedElements level xs
termination_by structural xs => xs

def indentedMembers (level : Nat) : List (String × Json) → String
  | [] => ""
  | x :: xs => "," ++ newline level ++ indentedMember level x ++ indentedMembers level xs
termination_by structural xs => xs

def indentedMember (level : Nat) : String × Json → String
  | (name, value) => quoted name ++ ": " ++ indented level value
termination_by structural x => x

end

def pretty (j : Json) : String := indented 0 j

end Json

end DotGraph
