/-!
# The shortest decimal of a floating point number

A binary floating point number stands for all the reals that round to it. Its text is the shortest
decimal among these; of several of the same length it is the one nearest to the number itself.
-/

namespace CommentTags.Decimal

/-- A non-negative fraction. -/
structure Ratio where
  num : Nat
  den : Nat

/-- Whether one fraction is at most another. -/
def Ratio.le (a b : Ratio) : Bool := a.num * b.den ≤ b.num * a.den

/-- Whether one fraction is less than another. -/
def Ratio.lt (a b : Ratio) : Bool := a.num * b.den < b.num * a.den

/-- The fraction `n · 2 ^ e`. -/
def Ratio.scaled (n : Nat) (e : Int) : Ratio :=
  if 0 ≤ e then ⟨n * Nat.pow 2 e.toNat, 1⟩ else ⟨n, Nat.pow 2 (-e).toNat⟩

/-- The fraction `n · 10 ^ e`. -/
def Ratio.decimal (n : Nat) (e : Int) : Ratio :=
  if 0 ≤ e then ⟨n * Nat.pow 10 e.toNat, 1⟩ else ⟨n, Nat.pow 10 (-e).toNat⟩

/-- The reals that round to a number: from `low` to `high`, around `mid`. -/
structure Interval where
  low : Ratio
  mid : Ratio
  high : Ratio
  /-- Whether the two ends round to the number too. -/
  withEnds : Bool

/-- The reals that round to the finite positive number with the given bits. -/
def Interval.ofBits (bits : UInt64) : Interval :=
  let fraction := bits.toNat % Nat.pow 2 52
  let exponent := bits.toNat / Nat.pow 2 52 % Nat.pow 2 11
  let m := if exponent = 0 then fraction else fraction + Nat.pow 2 52
  let e : Int := (max exponent 1 : Nat) - 1075
  let below := if fraction = 0 && 1 < exponent then 4 * m - 1 else 4 * m - 2
  { low := Ratio.scaled below (e - 2)
    mid := Ratio.scaled (4 * m) (e - 2)
    high := Ratio.scaled (4 * m + 2) (e - 2)
    withEnds := m % 2 == 0 }

/-- Whether a fraction rounds to the number. -/
def Interval.contains (i : Interval) (r : Ratio) : Bool :=
  if i.withEnds then i.low.le r && r.le i.high else i.low.lt r && r.lt i.high

/-- The number of places by which a fraction below one must be moved to reach one. -/
def Ratio.zeros (r : Ratio) : Nat :=
  ((List.range ((Nat.toDigits 10 r.den).length + 1)).find? fun k =>
    r.den ≤ r.num * Nat.pow 10 k).getD 0

/-- The exponent of the first decimal digit of a positive fraction. -/
def Ratio.firstExponent (r : Ratio) : Int :=
  if r.den ≤ r.num then (Nat.toDigits 10 (r.num / r.den)).length - 1 else -r.zeros

/-- The whole number of steps of size `10 ^ e` in a fraction. -/
def Ratio.stepsBelow (r : Ratio) (e : Int) : Nat :=
  if 0 ≤ e then r.num / (r.den * Nat.pow 10 e.toNat) else r.num * Nat.pow 10 (-e).toNat / r.den

/-- Whether `d` steps of size `10 ^ e` lie nearer to a fraction than `d + 1` steps do. -/
def Ratio.nearerBelow (r : Ratio) (d : Nat) (e : Int) : Bool :=
  r.lt (Ratio.decimal (10 * d + 5) (e - 1)) ||
    (r.le (Ratio.decimal (10 * d + 5) (e - 1)) && d % 2 == 0)

/-- The decimal with a last digit of weight `10 ^ e` that rounds to the number, if there is one. -/
def Interval.onGrid? (i : Interval) (e : Int) : Option Nat :=
  let d := i.mid.stepsBelow e
  match i.contains (Ratio.decimal d e), i.contains (Ratio.decimal (d + 1) e) with
  | true, true => some (if i.mid.nearerBelow d e then d else d + 1)
  | true, false => some d
  | false, true => some (d + 1)
  | false, false => none

/-- The digits of the shortest decimal of a finite positive number and the weight of its last one. -/
def shortest (bits : UInt64) : Nat × Int :=
  let i := Interval.ofBits bits
  let top := i.mid.firstExponent
  ((List.range 17).findSome? fun (k : Nat) =>
    (i.onGrid? (top - k)).map fun d => (d, top - k)).getD (0, 0)

/-- Decimals whose first digit has an exponent between these two are written without exponent. -/
def plainExponents : Int × Int := (-5, 15)

/-- Digits with a decimal point, given the exponent of the first digit. -/
def pointed (digits : List Char) (first : Int) : List Char :=
  if first < 0 then
    "0.".toList ++ List.replicate ((-first).toNat - 1) '0' ++ digits
  else
    let whole := first.toNat + 1
    let padded := digits ++ List.replicate (whole - digits.length) '0'
    let fraction := padded.drop whole
    padded.take whole ++ ['.'] ++ (if fraction.isEmpty then ['0'] else fraction)

/-- Digits with an exponent. -/
def scientific (digits : List Char) (first : Int) : List Char :=
  let head := match digits with
    | [] => []
    | [d] => [d]
    | d :: more => d :: '.' :: more
  head ++ ['e', if first < 0 then '-' else '+'] ++ Nat.toDigits 10 first.natAbs

/-- The text of the finite number with the given bits. -/
def text (bits : UInt64) : List Char :=
  let sign := if bits.toNat / Nat.pow 2 63 = 1 then ['-'] else []
  let size := bits.toNat % Nat.pow 2 63
  if size = 0 then sign ++ "0.0".toList
  else
    let (d, e) := shortest size.toUInt64
    let digits := (Nat.toDigits 10 d).reverse.dropWhile (· == '0') |>.reverse
    let first := e + (Nat.toDigits 10 d).length - 1
    sign ++
      if plainExponents.1 ≤ first && first ≤ plainExponents.2 then pointed digits first
      else scientific digits first

end CommentTags.Decimal
