import DotGraph.Error
import DotGraph.Text.Utf8

/-!
# Encoding and decoding

Octets as text and text as octets, in each character set. A refusal names the first octet or the
first character that does not belong.
-/

namespace DotGraph.Charset

/-- The octet as the character of the same number. -/
def charOfOctet (b : UInt8) : Char := Char.ofNat b.toNat

def decode (charset : Charset) (octets : Octets) : Except DotError String :=
  match charset with
  | utf8 => match Text.Utf8.decode octets with
    | .ok cs => .ok (String.ofList cs)
    | .error offset => .error (.undecodable utf8 offset)
  | latin1 => .ok (String.ofList (octets.map charOfOctet))
  | ascii => match octets.findIdx? (0x80 ≤ ·) with
    | some offset => .error (.undecodable ascii offset)
    | none => .ok (String.ofList (octets.map charOfOctet))

/-- The number of the last character of a set whose characters are single octets. -/
def limit? : Charset → Option Nat
  | utf8 => none
  | latin1 => some 0xFF
  | ascii => some 0x7F

def encode (charset : Charset) (text : String) : Except DotError Octets :=
  match charset.limit? with
  | none => .ok (Text.Utf8.encode text.toList)
  | some limit => match text.toList.find? (limit < ·.toNat) with
    | some c => .error (.unencodable charset c)
    | none => .ok (text.toList.map fun c => UInt8.ofNat c.toNat)

/-- The character set of a label, or an error that repeats the label. -/
def ofLabel (label : String) : Except DotError Charset :=
  match ofLabel? label with
  | some charset => .ok charset
  | none => .error (.unknownCharset label)

end DotGraph.Charset
