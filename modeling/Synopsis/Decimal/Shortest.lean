import Synopsis.Decimal

/-!
# Shortest text

A number is written with the fewest digits that read back as it, and of several such texts the one
nearest to it. The reals that read back as `m · 2 ^ q` lie between the midpoints to its neighbours,
the midpoints included if `m` is even.
-/

namespace Synopsis.Decimal

/-- The reals that round to a number, in units of a common denominator: the number itself and the
distances to the ends on either side. -/
structure Interval where
  low : Nat
  value : Nat
  high : Nat
  unit : Nat
  /-- The ends belong to it. -/
  closed : Bool

/-- The interval of a positive number. Below a power of two the neighbour is half as far. -/
def interval (b : Binary) : Interval :=
  let (num, den) := b.quotient
  let step := (power 2 b.exponent).1
  let narrow := b.mantissa = Nat.pow 2 52 ∧ b.exponent > -1074
  { low := 4 * num - (if narrow then step else 2 * step)
    value := 4 * num
    high := 4 * num + 2 * step
    unit := 4 * den
    closed := b.mantissa % 2 == 0 }

/-- `digits · 10 ^ scale` lies in the interval. -/
def Interval.holds (i : Interval) (digits : Nat) (scale : Int) : Bool :=
  let (num, den) := power 10 scale
  let point := digits * num * i.unit
  if i.closed then i.low * den ≤ point && point ≤ i.high * den
  else i.low * den < point && point < i.high * den

/-- The number of digits before the point of a quotient, or minus the zeros right after it. -/
def magnitude (num den : Nat) : Int :=
  let guess : Int := (toString num).length - (toString den).length
  if den * (power 10 guess).1 ≤ num * (power 10 guess).2 then guess + 1 else guess

/-- The nearer of the two multiples of a power of ten around a number that lies in the interval. -/
def Interval.nearest? (i : Interval) (scale : Int) : Option Nat :=
  let num := i.value * (power 10 scale).2
  let den := i.unit * (power 10 scale).1
  let below := num / den
  let near := roundDiv num den
  let far := if near = below then below + 1 else below
  if i.holds near scale then some near
  else if i.holds far scale then some far
  else none

/-- The first scale, from the coarsest on, with a multiple in the interval. -/
def Interval.search (i : Interval) (scale : Int) : Nat → Nat × Int
  | 0 => (0, scale)
  | tries + 1 =>
    match i.nearest? scale with
    | some digits => (digits, scale)
    | none => i.search (scale - 1) tries

/-- The shortest digits of a positive number, and the exponent of the last one. -/
def shortest (b : Binary) : Nat × Int :=
  let i := interval b
  i.search (magnitude i.value i.unit - 1) 17

structure Layout where
  /-- The least decimal exponent written with a point. -/
  lowest : Int
  /-- The first decimal exponent above those. -/
  highest : Int
  /-- The least number of digits of an exponent. -/
  exponentWidth : Nat

/-- Numbers from a ten thousandth up to ten quadrillion are written with a point, the others with an
exponent of two digits or more. -/
def plainLayout : Layout := ⟨-4, 16, 2⟩

/-- The digits with the trailing zeros moved into the exponent. -/
def trimZeros : Nat → Nat × Int → Nat × Int
  | 0, d => d
  | fuel + 1, (digits, scale) =>
    if digits % 10 = 0 ∧ digits ≠ 0 then trimZeros fuel (digits / 10, scale + 1)
    else (digits, scale)

/-- Digits written out, `leading` being the decimal exponent of the first one. -/
def layOut (l : Layout) (digits : List Char) (leading : Int) : String :=
  if l.lowest ≤ leading ∧ leading < l.highest then
    if leading < 0 then
      "0." ++ String.ofList (List.replicate ((-leading).toNat - 1) '0' ++ digits)
    else
      let whole := leading.toNat + 1
      let before := digits.take whole ++ List.replicate (whole - digits.length) '0'
      let after := digits.drop whole
      String.ofList before ++ "." ++ (if after.isEmpty then "0" else String.ofList after)
  else
    let mark := if leading < 0 then "e-" else "e+"
    let point := if digits.length > 1 then "." else ""
    String.ofList (digits.take 1) ++ point ++ String.ofList (digits.drop 1) ++ mark ++
      padLeft l.exponentWidth (toString leading.natAbs)

/-- The shortest text of a number. -/
def text (x : Float) : String :=
  match decode x with
  | .nan => "nan"
  | .infinite negative => sign negative ++ "inf"
  | .finite b =>
    if b.mantissa = 0 then sign b.negative ++ "0.0"
    else
      let (n, scale) := trimZeros 17 (shortest b)
      let digits := (toString n).toList
      sign b.negative ++ layOut plainLayout digits (scale + digits.length - 1)

end Synopsis.Decimal
