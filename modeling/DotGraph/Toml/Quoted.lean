import DotGraph.Toml.Scalar

/-!
# TOML strings

Basic strings, which know escapes, and literal ones, which do not; each on one line or, between
tripled quotes, over several.
-/

namespace DotGraph.Toml.Quoted

/-- Characters that may stand in a comment or a literal string: no controls but the tab. -/
def isPlain (c : Char) : Bool := c = '\t' || (0x20 ≤ c.toNat && c.toNat ≠ 0x7F)

def isSpace (c : Char) : Bool := c = ' ' || c = '\t'

/-- The scalar value of hexadecimal digits, exactly `n` of them. -/
def unicode (n : Nat) (cs : List Char) : Except Fault (Read Char) :=
  let digits := cs.take n
  let code := Scalar.number 16 digits
  if digits.length = n && digits.all Scalar.isHexDigit then
    if code.isValidChar then .ok (Char.ofNat code, cs.drop n) else fail .outOfRange cs
  else stop cs

/-- The letters of escapes, as they are listed in messages. -/
def escapeLetters : List String := ["b", "f", "n", "r", "t", "u", "U", "\\", "\""]

/-- Stop at an escape that is not known: behind its letter, but in front of one that takes more
than one byte. -/
def unknownEscape (c : Char) (cs : List Char) : Except Fault α :=
  settle <| about "escape sequence" <| wanting (escapeLetters.map ticked) <|
    stop (if c.utf8Size = 1 then cs else c :: cs)

/-- The character of an escape, read behind the backslash. -/
def escape : List Char → Except Fault (Read Char)
  | [] => stop []
  | 'b' :: cs => .ok ('\x08', cs)
  | 't' :: cs => .ok ('\t', cs)
  | 'n' :: cs => .ok ('\n', cs)
  | 'f' :: cs => .ok ('\x0c', cs)
  | 'r' :: cs => .ok ('\r', cs)
  | '"' :: cs => .ok ('"', cs)
  | '\\' :: cs => .ok ('\\', cs)
  | 'u' :: cs => settle (about "unicode 4-digit hex code" (unicode 4 cs))
  | 'U' :: cs => settle (about "unicode 8-digit hex code" (unicode 8 cs))
  | c :: cs => unknownEscape c cs

/-- The newline at the front. -/
def newline? : List Char → Option (List Char)
  | '\n' :: cs => some cs
  | '\r' :: '\n' :: cs => some cs
  | _ => none

/-- Stop at the end of a string that has no closing quote there. -/
def unclosed (subject : String) (cs : List Char) : Except Fault α :=
  settle (about subject (stop cs))

/-- A basic string behind its opening quote. The bound is the number of characters. -/
def basic : Nat → List Char → Except Fault (Read (List Char))
  | _, [] => unclosed "basic string" []
  | 0, cs => unclosed "basic string" cs
  | bound + 1, c :: cs =>
    if c = '"' then .ok ([], cs)
    else if c = '\\' then do
      let (d, cs) ← orElse (escape cs) fun _ => unclosed "basic string" (c :: cs)
      push d (basic bound cs)
    else if isPlain c then push c (basic bound cs)
    else unclosed "basic string" (c :: cs)

/-- A literal string behind its opening quote. -/
def literal : List Char → Except Fault (Read (List Char))
  | [] => unclosed "literal string" []
  | c :: cs =>
    if c = '\'' then .ok ([], cs)
    else if isPlain c then push c (literal cs)
    else unclosed "literal string" (c :: cs)

/-- What quotes mean in a text that three of them close: up to two of them belong to the text, and
up to two more may stand in front of the three. -/
def closing (quote : Char) (cs : List Char) : Option (List Char × List Char) :=
  let run := (cs.takeWhile (· = quote)).length
  if 3 ≤ run then some (List.replicate (min (run - 3) 2) quote, cs.drop (min run 5)) else none

def dropBlankLines : List Char → List Char
  | ' ' :: cs => dropBlankLines cs
  | '\t' :: cs => dropBlankLines cs
  | '\n' :: cs => dropBlankLines cs
  | '\r' :: '\n' :: cs => dropBlankLines cs
  | cs => cs

/-- Drop the blanks and newlines behind a backslash that ends a line; `none` where it does not. -/
def continuation? (cs : List Char) : Option (List Char) :=
  (newline? (cs.dropWhile isSpace)).map dropBlankLines

/-- A basic string over several lines, behind its opening quotes. -/
def basicLines : Nat → List Char → Except Fault (Read (List Char))
  | _, [] => unclosed "multiline basic string" []
  | 0, cs => unclosed "multiline basic string" cs
  | bound + 1, c :: cs =>
    let here := c :: cs
    if c = '"' then match closing c here with
      | some r => .ok r
      | none =>
        if (cs.dropWhile (· = '"')).isEmpty then unclosed "multiline basic string" here
        else push c (basicLines bound cs)
    else if c = '\\' then match continuation? cs with
      | some cs => basicLines bound cs
      | none => do
        let (d, cs) ← orElse (escape cs) fun _ => unclosed "multiline basic string" here
        push d (basicLines bound cs)
    else match newline? here with
      | some cs => push '\n' (basicLines bound cs)
      | none =>
        if isPlain c then push c (basicLines bound cs)
        else unclosed "multiline basic string" here

/-- Whether a text goes on with a character of a literal string over several lines. -/
def continues (cs : List Char) : Bool := (cs.head?.any isPlain) || (newline? cs).isSome

/-- A literal string over several lines, behind its opening quotes. -/
def literalLines : Nat → List Char → Except Fault (Read (List Char))
  | _, [] => unclosed "multiline literal string" []
  | 0, cs => unclosed "multiline literal string" cs
  | bound + 1, c :: cs =>
    let here := c :: cs
    if c = '\'' then match closing c here with
      | some r => .ok r
      | none =>
        if continues (cs.dropWhile (· = '\'')) then push c (literalLines bound cs)
        else unclosed "multiline literal string" here
    else match newline? here with
      | some cs => push '\n' (literalLines bound cs)
      | none =>
        if isPlain c then push c (literalLines bound cs)
        else unclosed "multiline literal string" here

/-- The text without a newline at its start. -/
def dropNewline (cs : List Char) : List Char := (newline? cs).getD cs

def string (r : Except Fault (Read (List Char))) : Except Fault (Read String) :=
  r.map fun r => (String.ofList r.1, r.2)

/-- The string at the front, if it is on one line. -/
def readLine : List Char → Except Fault (Read String)
  | '"' :: cs => string (basic cs.length cs)
  | '\'' :: cs => string (literal cs)
  | cs => stop cs

/-- The string at the front. -/
def read : List Char → Except Fault (Read String)
  | '"' :: '"' :: '"' :: cs => string (basicLines cs.length (dropNewline cs))
  | '\'' :: '\'' :: '\'' :: cs => string (literalLines cs.length (dropNewline cs))
  | cs => readLine cs

end DotGraph.Toml.Quoted
