import Rundown.Decimal.Binary
import Rundown.Text.Numeral

/-!
# The shortest decimal of a number

A number of 64 bits is written with the fewest significant digits that read
back as the same number.  On the grid of decimals with a given count of digits
only the two neighbours of the exact value need to be tried; the first grid
with a hit is taken, and of two hits the nearer one.  All tests are made on
exact fractions.
-/

namespace Rundown.Decimal

open Rundown.Text

/-- A positive decimal `digits * 10 ^ exponent`. -/
structure Scaled where
  digits : Nat
  exponent : Int

/-- The reals that are read as one number, over a common denominator. -/
structure Interval where
  low : Nat
  value : Nat
  high : Nat
  den : Nat
  /-- The ends of the interval are read as the number too. -/
  closed : Bool

/-- The interval of a number with a positive significand. -/
def Interval.of (b : Binary) : Interval :=
  let m := b.significand
  let below := if m = fractionCount && -1074 < b.exponent then 1 else 2
  let shifted (n : Nat) : Nat :=
    if b.exponent - 2 < 0 then n else n * twoTo (b.exponent - 2).natAbs
  ⟨shifted (4 * m - below), shifted (4 * m), shifted (4 * m + 2),
    if b.exponent - 2 < 0 then twoTo (b.exponent - 2).natAbs else 1, m % 2 == 0⟩

/-- The fraction `num / den` is at least `10 ^ e`. -/
def atLeastPower (num den : Nat) (e : Int) : Bool :=
  if e < 0 then den ≤ num * tenTo e.natAbs else den * tenTo e.natAbs ≤ num

/-- The power of ten of the first significant digit of `num / den`. -/
def leadingPower (num den : Nat) : Int :=
  let guess := (((num.log2 : Int) - den.log2) * 30103).fdiv 100000
  ([guess + 1, guess, guess - 1].find? (atLeastPower num den)).getD (guess - 2)

/-- The decimal lies in the interval. -/
def Interval.contains (i : Interval) (d : Scaled) : Bool :=
  let num := if d.exponent < 0 then d.digits else d.digits * tenTo d.exponent.natAbs
  let den := if d.exponent < 0 then tenTo d.exponent.natAbs else 1
  let here := num * i.den
  let low := i.low * den
  let high := i.high * den
  if i.closed then low ≤ here && here ≤ high else low < here && here < high

/-- The nearest decimal of the interval on the grid of `10 ^ exponent`. -/
def Interval.onGrid? (i : Interval) (exponent : Int) : Option Scaled :=
  let num := if exponent < 0 then i.value * tenTo exponent.natAbs else i.value
  let den := if exponent < 0 then i.den else i.den * tenTo exponent.natAbs
  let floor := num / den
  let twice := 2 * (num % den)
  let lower : Scaled := ⟨floor, exponent⟩
  let upper : Scaled := ⟨floor + 1, exponent⟩
  match i.contains lower && 0 < floor, i.contains upper with
  | true, true =>
      if twice < den then some lower
      else if den < twice then some upper
      else some (if floor % 2 = 0 then lower else upper)
  | true, false => some lower
  | false, true => some upper
  | false, false => none

/-- Trailing zeros belong to the exponent. -/
def Scaled.reduce : Nat → Scaled → Scaled
  | 0, d => d
  | fuel + 1, d =>
      if d.digits % 10 = 0 && 0 < d.digits then
        Scaled.reduce fuel ⟨d.digits / 10, d.exponent + 1⟩
      else d

/-- The shortest decimal of a positive number. -/
def shortest (b : Binary) : Scaled :=
  let i := Interval.of b
  let top := leadingPower i.value i.den
  let found := (List.range 17).findSome? fun (extra : Nat) => i.onGrid? (top - extra)
  (found.getD ⟨i.value, 0⟩).reduce 20

/-- The powers of ten of the first digit for which no exponent is written. -/
def positionalPowers : Int × Int := (-5, 15)

/-- A decimal with a point and at least one digit on each side of it. -/
def positional (digits : List Char) (power : Int) : List Char :=
  if power < 0 then
    '0' :: '.' :: (List.replicate (power.natAbs - 1) '0' ++ digits)
  else
    let whole := digits.take (power.natAbs + 1)
    let fraction := digits.drop (power.natAbs + 1)
    whole ++ List.replicate (power.natAbs + 1 - whole.length) '0' ++
      '.' :: (if fraction.isEmpty then ['0'] else fraction)

/-- A decimal with one digit before the point and a signed exponent. -/
def scientific (digits : List Char) (power : Int) : List Char :=
  let fraction := digits.drop 1
  digits.take 1 ++ (if fraction.isEmpty then [] else '.' :: fraction) ++
    'e' :: (if power < 0 then '-' else '+') :: natChars power.natAbs

/-- The shortest text of a number: with a point when its size is ordinary, else
with an exponent. -/
def text (x : Float) : String :=
  let sign := if isNegative x then ['-'] else []
  match Binary.of? x with
  | none => if x.isNaN then "NaN" else String.ofList (sign ++ "inf".toList)
  | some b =>
      if b.significand = 0 then String.ofList (sign ++ "0.0".toList)
      else
        let d := shortest b
        let digits := natChars d.digits
        let power := d.exponent + digits.length - 1
        if positionalPowers.1 ≤ power && power ≤ positionalPowers.2 then
          String.ofList (sign ++ positional digits power)
        else String.ofList (sign ++ scientific digits power)

/-- The number rounded to a whole number, halves to even, with its sign. -/
def wholeText (x : Float) : String :=
  let sign := if isNegative x then ['-'] else []
  match Binary.of? x with
  | none => if x.isNaN then "NaN" else String.ofList (sign ++ "inf".toList)
  | some b => String.ofList (sign ++ natChars b.roundHalfEven)

end Rundown.Decimal
