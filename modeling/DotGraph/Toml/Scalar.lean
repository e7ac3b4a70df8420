import DotGraph.Text.Shortest
import DotGraph.Toml

/-!
# TOML scalars

Numbers, truth values and moments.
-/

namespace DotGraph.Toml.Scalar

/-- Digits behind a first one. An underscore asks for a digit behind it. -/
def moreDigits (isDigit : Char → Bool) : List Char → Except Fault (Read (List Char))
  | [] => .ok ([], [])
  | ['_'] => settle (wanting ["digit"] (stop []))
  | '_' :: c :: cs =>
    if isDigit c then push c (moreDigits isDigit cs)
    else settle (wanting ["digit"] (stop (c :: cs)))
  | c :: cs => if isDigit c then push c (moreDigits isDigit cs) else .ok ([], c :: cs)

/-- Digits with single underscores between them, as the digits alone. -/
def digits (isDigit : Char → Bool) (cs : List Char) : Except Fault (Read (List Char)) := do
  let (c, cs) ← char isDigit cs
  push c (moreDigits isDigit cs)

def digitValue (c : Char) : Nat :=
  if c.isDigit then c.toNat - '0'.toNat else c.toLower.toNat - 'a'.toNat + 10

def number (base : Nat) (digits : List Char) : Nat :=
  digits.foldl (fun n c => n * base + digitValue c) 0

def isHexDigit (c : Char) : Bool :=
  c.isDigit || ('a' ≤ c && c ≤ 'f') || ('A' ≤ c && c ≤ 'F')

def isOctalDigit (c : Char) : Bool := '0' ≤ c && c ≤ '7'

def isBinaryDigit (c : Char) : Bool := c = '0' || c = '1'

/-- The sign at the front, if any, and the rest. -/
def sign (cs : List Char) : Bool × List Char :=
  match cs with
  | '-' :: rest => (true, rest)
  | '+' :: rest => (false, rest)
  | _ => (false, cs)

/-- A decimal number as its sign and its digits. A leading zero stands alone. -/
def decimal (cs : List Char) : Except Fault (Read (Bool × List Char)) :=
  let (negative, cs) := sign cs
  about "integer" do
    let (digits, cs) ← match cs with
      | '0' :: cs => .ok (['0'], cs)
      | cs => digits Char.isDigit cs
    .ok ((negative, digits), cs)

/-- An integer without a sign, behind the letter of its base. -/
def based (subject : String) (base : Nat) (isDigit : Char → Bool) (start cs : List Char) :
    Except Fault (Read Int) :=
  settle do
    let (digits, cs) ← about subject (digits isDigit cs)
    let n := number base digits
    if n < 1 <<< 63 then .ok ((n : Int), cs) else fail .tooLarge start

/-- An integer of 64 bits. -/
def integer (cs : List Char) : Except Fault (Read Int) :=
  match cs with
  | '0' :: 'x' :: rest => based "hexadecimal integer" 16 isHexDigit cs rest
  | '0' :: 'o' :: rest => based "octal integer" 8 isOctalDigit cs rest
  | '0' :: 'b' :: rest => based "binary integer" 2 isBinaryDigit cs rest
  | _ => do
    let ((negative, digits), rest) ← decimal cs
    let n := number 10 digits
    if negative then
      if n ≤ 1 <<< 63 then .ok (-(n : Int), rest) else settle (fail .tooSmall cs)
    else if n < 1 <<< 63 then .ok ((n : Int), rest) else settle (fail .tooLarge cs)

/-- An exponent with its letter. -/
def exponent (cs : List Char) : Except Fault (Read Int) := do
  let (_, cs) ← char (fun c => c = 'e' || c = 'E') cs
  let (negative, cs) := sign cs
  let (digits, cs) ← settle (digits Char.isDigit cs)
  let n := number 10 digits
  .ok (if negative then -(n : Int) else n, cs)

/-- The digits behind a point. -/
def fraction (cs : List Char) : Except Fault (Read (List Char)) := do
  settle (wanting ["digit"] (digits Char.isDigit (← one '.' cs)))

/-- A float with a fraction, an exponent or both. Positive ones have to be finite as floats of 64
bits. -/
def decimalFloat (cs : List Char) : Except Fault (Read String) := do
  let ((negative, whole), rest) ← decimal cs
  let ((digits, power), rest) ← orElse
    (do
      let (power, rest) ← exponent rest
      .ok (([], power), rest))
    fun _ => do
      let (digits, rest) ← fraction rest
      let (power, rest) ← attempt rest (exponent rest)
      .ok ((digits, power.getD 0), rest)
  let n := number 10 (whole ++ digits)
  let power := power - digits.length
  if !negative && (Text.nearest? n power).isNone then settle (stop cs)
  else .ok ((if negative then "-" else "") ++ Text.float n power, rest)

/-- A float that is no number, or not finite. -/
def specialFloat (cs : List Char) : Except Fault (Read String) :=
  let (negative, cs) := sign cs
  orElse ((word "inf" cs).map fun rest => (if negative then "-inf" else "inf", rest))
    fun _ => (word "nan" cs).map ("NaN", ·)

def float (cs : List Char) : Except Fault (Read String) :=
  about "floating-point number" (orElse (decimalFloat cs) fun _ => specialFloat cs)

/-- Exactly `n` decimal digits, as a number. -/
def fixed (n : Nat) (cs : List Char) : Except Fault (Read Nat) :=
  let digits := cs.take n
  if digits.length = n && digits.all Char.isDigit then .ok (number 10 digits, cs.drop n)
  else stop cs

/-- Two decimal digits, as a number within bounds. -/
def part (low high : Nat) (cs : List Char) : Except Fault (Read Nat) := do
  let (n, rest) ← fixed 2 cs
  if low ≤ n && n ≤ high then .ok (n, rest) else fail .outOfRange cs

def daysIn (year month : Nat) : Nat :=
  if month = 2 then
    if year % 4 = 0 && (year % 100 ≠ 0 || year % 400 = 0) then 29 else 28
  else if month = 4 || month = 6 || month = 9 || month = 11 then 30
  else 31

/-- A date, as it is written. -/
def date (cs : List Char) : Except Fault (Read (List Char)) := do
  let (year, rest) ← fixed 4 cs
  let rest ← one '-' rest
  settle do
    let (month, rest) ← part 1 12 rest
    let rest ← one '-' rest
    let (day, behind) ← part 1 31 rest
    if day ≤ daysIn year month then .ok (cs.take 10, behind) else fail .outOfRange rest

/-- Digits of a fraction as they are kept: nine at most, the zeros at their end left out. -/
def fractionText (digits : List Char) : List Char :=
  match ((digits.take 9).reverse.dropWhile (· = '0')).reverse with
  | [] => []
  | kept => '.' :: kept

/-- The fraction of a second at the front, if there is one. -/
def secondFraction (cs : List Char) : List Char × List Char :=
  match cs with
  | '.' :: rest => match rest.takeWhile Char.isDigit with
    | [] => ([], cs)
    | digits => (fractionText digits, rest.dropWhile Char.isDigit)
  | _ => ([], cs)

/-- A time of day. -/
def time (cs : List Char) : Except Fault (Read (List Char)) := do
  let (_, rest) ← part 0 23 cs
  let rest ← one ':' rest
  settle do
    let (_, rest) ← part 0 59 rest
    let rest ← one ':' rest
    let (_, rest) ← part 0 60 rest
    let (fraction, rest) := secondFraction rest
    .ok (cs.take 8 ++ fraction, rest)

/-- An offset from universal time. A zero offset has no minus. -/
def offset (cs : List Char) : Except Fault (Read (List Char)) :=
  about "time offset" <| match cs with
  | 'Z' :: rest => .ok (['Z'], rest)
  | 'z' :: rest => .ok (['Z'], rest)
  | _ => do
    let (mark, start) ← char (fun c => c = '+' || c = '-') cs
    settle do
      let (hours, rest) ← part 0 23 start
      let (minutes, rest) ← part 0 59 (← one ':' rest)
      .ok ((if hours = 0 && minutes = 0 then '+' else mark) :: start.take 5, rest)

/-- The time behind a date, with its mark and an optional offset. -/
def dayTime (cs : List Char) : Except Fault (Read (List Char)) := do
  let (_, rest) ← char (fun c => c = 'T' || c = 't' || c = ' ') cs
  let (time, rest) ← time rest
  let (offset, rest) ← attempt rest (offset rest)
  .ok ('T' :: time ++ offset.getD [], rest)

/-- A date, a time, or both. -/
def moment (cs : List Char) : Except Fault (Read String) :=
  orElse
    (about "date-time" do
      let (date, rest) ← date cs
      let (time, rest) ← attempt rest (dayTime rest)
      .ok (String.ofList (date ++ time.getD []), rest))
    fun _ => about "time" do
      let (time, rest) ← time cs
      .ok (String.ofList time, rest)

/-- A number or a moment. -/
def numeric (cs : List Char) : Except Fault (Read Toml) :=
  orElse ((moment cs).map fun r => (.moment r.1, r.2)) fun _ =>
    orElse ((float cs).map fun r => (.float r.1, r.2)) fun _ =>
      (integer cs).map fun r => (.integer r.1, r.2)

/-- A word that is a value by itself. -/
def named (cs : List Char) : Except Fault (Read Toml) :=
  match cs with
  | 't' :: _ => settle ((word "true" cs).map (.boolean true, ·))
  | 'f' :: _ => settle ((word "false" cs).map (.boolean false, ·))
  | 'i' :: _ => (word "inf" cs).map (.float "inf", ·)
  | 'n' :: _ => (word "nan" cs).map (.float "NaN", ·)
  | _ => stop cs

/-- The scalar at the front that is no string. -/
def read (cs : List Char) : Except Fault (Read Toml) :=
  match cs with
  | [] => stop []
  | c :: _ =>
    if c.isDigit || c = '+' || c = '-' then numeric cs
    else if c = '_' then wanting ["leading digit"] ((integer cs).map fun r => (.integer r.1, r.2))
    else if c = '.' then wanting ["leading digit"] ((float cs).map fun r => (.float r.1, r.2))
    else about "string" (wanting [ticked "\"", ticked "'"] (named cs))

end DotGraph.Toml.Scalar
