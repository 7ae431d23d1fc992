/-!
# Floating point numbers as exact fractions

A finite floating point number is a sign, an integer and a power of two. `Binary.ofFloat` gives
these, and `roundDiv` rounds a quotient to the nearest integer, a tie to the even one.
-/

namespace Synopsis.Decimal

/-- A number `mantissa · 2 ^ exponent`, negated or not. -/
structure Binary where
  negative : Bool
  mantissa : Nat
  exponent : Int
  deriving DecidableEq

inductive Decoded where
  | nan
  | infinite (negative : Bool)
  | finite (value : Binary)

/-- The parts of a floating point number. -/
def decode (x : Float) : Decoded :=
  let bits := x.toBits.toNat
  let negative := bits / Nat.pow 2 63 == 1
  let biased : Nat := bits / Nat.pow 2 52 % Nat.pow 2 11
  let fraction : Nat := bits % Nat.pow 2 52
  if biased = 2047 then if fraction = 0 then .infinite negative else .nan
  else if biased = 0 then .finite ⟨negative, fraction, -1074⟩
  else .finite ⟨negative, Nat.pow 2 52 + fraction, (biased : Int) - 1075⟩

/-- The quotient rounded to the nearest integer, a tie to the even one. -/
def roundDiv (num den : Nat) : Nat :=
  let q := num / den
  let twice := 2 * (num % den)
  if twice < den then q
  else if twice = den then q + q % 2
  else q + 1

/-- A power as a quotient of natural numbers. -/
def power (base : Nat) (exponent : Int) : Nat × Nat :=
  if exponent ≥ 0 then (Nat.pow base exponent.toNat, 1) else (1, Nat.pow base (-exponent).toNat)

/-- The number of a fraction as a quotient of natural numbers. -/
def Binary.quotient (b : Binary) : Nat × Nat :=
  let (num, den) := power 2 b.exponent
  (b.mantissa * num, den)

def sign (negative : Bool) : String :=
  if negative then "-" else ""

def padLeft (width : Nat) (s : String) : String :=
  String.ofList (List.replicate (width - s.length) '0') ++ s

end Synopsis.Decimal
