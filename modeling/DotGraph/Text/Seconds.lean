/-!
# Seconds with one decimal

A span of time in seconds is held as a binary fraction of 53 significant bits and written with one
decimal. Every rounding goes to the nearest value, and to the even one of two that are as near.
-/

namespace DotGraph.Text

/-- The quotient rounded to the nearest integer, halves to the even neighbour. -/
def roundDiv (n d : Nat) : Nat :=
  let q := n / d
  let r := 2 * (n % d)
  if r < d then q else if d < r then q + 1 else q + q % 2

/-- A fraction as `m / 2 ^ e` with 53 significant bits. Meant for fractions below one. -/
def binaryFraction (n d : Nat) : Nat × Nat :=
  if n = 0 then (0, 0)
  else
    let e := 52 + (Nat.log2 d - Nat.log2 n) + 1
    let e := if d <<< 53 ≤ n <<< e then e - 1 else e
    (roundDiv (n <<< e) d, e)

/-- A natural number rounded to 53 significant bits. -/
def roundBits (n : Nat) : Nat :=
  let surplus := Nat.log2 n - 52
  roundDiv n (1 <<< surplus) <<< surplus

/-- A time in milliseconds, written in seconds. -/
def seconds (milliseconds : Nat) : String :=
  let (m, e) := binaryFraction (milliseconds % 1000) 1000
  let value := roundBits ((milliseconds / 1000) <<< e + m)
  let tenths := roundDiv (value * 10) (1 <<< e)
  s!"{tenths / 10}.{tenths % 10}"

end DotGraph.Text
