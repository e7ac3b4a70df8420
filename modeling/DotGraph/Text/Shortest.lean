import DotGraph.Text.Seconds

/-!
# Floats in full

Floats of 64 bits as `m * 2 ^ e`, the nearest one to a decimal, and the decimal of fewest digits
that is read as a given one. Halves go to the even neighbour.
-/

namespace DotGraph.Text

/-- A power of a base as a fraction. -/
def powerRatio (base : Nat) (e : Int) : Nat × Nat :=
  (Nat.pow base e.toNat, Nat.pow base (-e).toNat)

/-- The float nearest to `n / d`, with no bound above. -/
def nearestRatio (n d : Nat) : Nat × Int :=
  let scaled (e : Int) : Nat × Nat := let (up, down) := powerRatio 2 e; (n * down, d * up)
  let e : Int := (Nat.log2 n : Int) - Nat.log2 d - 52
  let (a, b) := scaled e
  let e := max (if a < b <<< 52 then e - 1 else e) (-1074)
  let (a, b) := scaled e
  let m := roundDiv a b
  if m = 1 <<< 53 then (1 <<< 52, e + 1) else (m, e)

/-- The float nearest to `n * 10 ^ e`; `none` beyond the largest one. -/
def nearest? (n : Nat) (e : Int) : Option (Nat × Int) :=
  let width := (Nat.toDigits 10 n).length + e
  if n = 0 || width < -330 then some (0, 0)
  else if 310 < width then none
  else
    let (up, down) := powerRatio 10 e
    let (m, e) := nearestRatio (n * up) down
    if 971 < e then none else some (m, e)

/-- The exponent of the first decimal digit of `n / d`. -/
def decimalExponent (n d : Nat) : Int :=
  if d ≤ n then (Nat.toDigits 10 (n / d)).length - 1
  else
    let e := (Nat.toDigits 10 d).length - (Nat.toDigits 10 n).length
    if d ≤ n * Nat.pow 10 e then -e else -(e + 1)

/-- The decimal `n * 10 ^ e` with fewest digits that is read as the float `m * 2 ^ e'`, which is
not zero. Decimals nearer to it than to its neighbours are, and those halfway if `m` is even. -/
def shortest (m : Nat) (e : Int) : Nat × Int :=
  let (up, down) := powerRatio 2 (e - 2)
  let low := (if m = 1 <<< 52 && -1074 < e then 4 * m - 1 else 4 * m - 2) * up
  let high := (4 * m + 2) * up
  let value := 4 * m * up
  let first := decimalExponent value down
  let grid (places : Nat) : Option (Nat × Int) :=
    let (unit, parts) := powerRatio 10 (first - places)
    let fits (n : Nat) : Bool :=
      let point := n * unit * down
      if m % 2 = 0 then low * parts ≤ point && point ≤ high * parts
      else low * parts < point && point < high * parts
    let n := value * parts / (unit * down)
    let near := roundDiv (value * parts) (unit * down)
    ([near, n, n + 1].find? fits).map (·, first - places)
  ((List.range 17).findSome? grid).getD (0, 0)

/-- A decimal written out, with one digit or more behind the point. -/
def positional (n : Nat) (e : Int) : String :=
  let digits := Nat.toDigits 10 (n * Nat.pow 10 e.toNat)
  let places := (-e).toNat
  let digits := List.replicate (places + 1 - digits.length) '0' ++ digits
  let fraction := (digits.drop (digits.length - places)).reverse.dropWhile (· = '0')
  String.ofList (digits.take (digits.length - places)) ++ "." ++
    if fraction.isEmpty then "0" else String.ofList fraction.reverse

/-- The float nearest to `n * 10 ^ e`, written out. -/
def float (n : Nat) (e : Int) : String :=
  match nearest? n e with
  | none => "inf"
  | some (0, _) => "0.0"
  | some (m, e) => let (n, e) := shortest m e; positional n e

end DotGraph.Text
