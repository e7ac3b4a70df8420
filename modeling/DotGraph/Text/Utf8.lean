/-!
# UTF-8

The encoding of characters as octets, with its two readings: one that stops at the first octet
that begins no character, and one that puts U+FFFD in the place of what is malformed.
-/

namespace DotGraph

abbrev Octets := List UInt8

namespace Text.Utf8

def encode (cs : List Char) : Octets := cs.flatMap String.utf8EncodeChar

/-- What stands at the front: a character, or octets that begin none. -/
inductive Piece
  | char (c : Char) (size : Nat)
  | malformed (size : Nat)

def isContinuation (b : UInt8) : Bool := 0x80 ≤ b && b ≤ 0xBF

/-- The octets that may come second after a leading octet of three or four. They rule out
overlong forms, surrogates and values above U+10FFFF. -/
def isSecond (a b : UInt8) : Bool :=
  if a = 0xE0 then 0xA0 ≤ b && b ≤ 0xBF
  else if a = 0xED then 0x80 ≤ b && b ≤ 0x9F
  else if a = 0xF0 then 0x90 ≤ b && b ≤ 0xBF
  else if a = 0xF4 then 0x80 ≤ b && b ≤ 0x8F
  else isContinuation b

def low (b : UInt8) : Nat := b.toNat % 64

/-- The piece that starts with the octet `a`, in front of `bs`. -/
def piece (a : UInt8) (bs : Octets) : Piece :=
  if a < 0x80 then .char (Char.ofNat a.toNat) 1
  else if 0xC2 ≤ a && a ≤ 0xDF then match bs with
    | b :: _ =>
      if isContinuation b then .char (Char.ofNat (a.toNat % 32 * 64 + low b)) 2 else .malformed 1
    | [] => .malformed 1
  else if 0xE0 ≤ a && a ≤ 0xEF then match bs with
    | b :: bs =>
      if isSecond a b then match bs with
        | c :: _ =>
          if isContinuation c then
            .char (Char.ofNat ((a.toNat % 16 * 64 + low b) * 64 + low c)) 3
          else .malformed 2
        | [] => .malformed 2
      else .malformed 1
    | [] => .malformed 1
  else if 0xF0 ≤ a && a ≤ 0xF4 then match bs with
    | b :: bs =>
      if isSecond a b then match bs with
        | c :: bs =>
          if isContinuation c then match bs with
            | d :: _ =>
              if isContinuation d then
                .char (Char.ofNat (((a.toNat % 8 * 64 + low b) * 64 + low c) * 64 + low d)) 4
              else .malformed 3
            | [] => .malformed 3
          else .malformed 2
        | [] => .malformed 2
      else .malformed 1
    | [] => .malformed 1
  else .malformed 1

/-- The characters that octets encode, or the offset of the first octet that begins none. -/
def decodeFrom (offset : Nat) : Octets → Except Nat (List Char)
  | [] => .ok []
  | a :: bs => match piece a bs with
    | .char c size => (decodeFrom (offset + size) (bs.drop (size - 1))).map (c :: ·)
    | .malformed _ => .error offset
termination_by bs => bs.length
decreasing_by simp only [List.length_drop, List.length_cons]; omega

def decode (bs : Octets) : Except Nat (List Char) := decodeFrom 0 bs

/-- The characters that octets encode, with U+FFFD for each malformed piece. -/
def decodeLossy : Octets → List Char
  | [] => []
  | a :: bs => match piece a bs with
    | .char c size => c :: decodeLossy (bs.drop (size - 1))
    | .malformed size => '\uFFFD' :: decodeLossy (bs.drop (size - 1))
termination_by bs => bs.length
decreasing_by all_goals simp only [List.length_drop, List.length_cons]; omega

end Text.Utf8

end DotGraph
