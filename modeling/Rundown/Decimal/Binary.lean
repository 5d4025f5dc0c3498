import Rundown.Decimal.Power

/-!
# Binary64 numbers as exact fractions

A finite number of 64 bits is a sign, a whole significand and a power of two.
This file takes a number apart in that way and rounds the exact value to whole
numbers: toward zero, to the nearest with halves away from zero, and to the
nearest with halves to the even neighbour.
-/

namespace Rundown.Decimal

/-- The nearest whole number to a fraction, a half going to the even neighbour. -/
def roundHalfEven (num den : Nat) : Nat :=
  let low := num / den
  let twice := 2 * (num % den)
  if twice < den then low
  else if den < twice then low + 1
  else low + low % 2

/-- The value `significand * 2 ^ exponent`, negated when `negative`. -/
structure Binary where
  negative : Bool
  significand : Nat
  exponent : Int

/-- How many numbers the fraction field of a number of 64 bits tells apart. -/
def fractionCount : Nat := 4503599627370496

/-- How many numbers the exponent field of a number of 64 bits tells apart. -/
def exponentCount : Nat := 2048

/-- The sign bit. -/
def isNegative (x : Float) : Bool :=
  x.toBits >>> 63 == 1

/-- The parts of a finite number; an infinity or a NaN has none. -/
def Binary.of? (x : Float) : Option Binary :=
  let bits : Nat := x.toBits.toNat
  let field : Nat := bits / fractionCount % exponentCount
  let fraction : Nat := bits % fractionCount
  if field = 2047 then none
  else if field = 0 then some ⟨isNegative x, fraction, -1074⟩
  else some ⟨isNegative x, fractionCount + fraction, (field : Int) - 1075⟩

/-- The magnitude as a fraction of two natural numbers, the second positive. -/
def Binary.fraction (b : Binary) : Nat × Nat :=
  if b.exponent < 0 then (b.significand, twoTo b.exponent.natAbs)
  else (b.significand * twoTo b.exponent.natAbs, 1)

/-- A magnitude with the sign put back. -/
def Binary.signed (b : Binary) (magnitude : Nat) : Int :=
  if b.negative then -(magnitude : Int) else magnitude

/-- The magnitude without its fraction. -/
def Binary.floorMagnitude (b : Binary) : Nat :=
  b.fraction.1 / b.fraction.2

/-- The nearest whole magnitude, a half going up. -/
def Binary.roundHalfUp (b : Binary) : Nat :=
  (2 * b.fraction.1 + b.fraction.2) / (2 * b.fraction.2)

/-- The nearest whole magnitude, a half going to the even neighbour. -/
def Binary.roundHalfEven (b : Binary) : Nat :=
  Decimal.roundHalfEven b.fraction.1 b.fraction.2

/-- The greatest whole number of 64 bits. -/
def greatestWord : Int := 9223372036854775807

/-- The least whole number of 64 bits. -/
def leastWord : Int := -9223372036854775808

/-- The nearest integer of 64 bits. -/
def clampWord (n : Int) : Int :=
  max leastWord (min greatestWord n)

/-- The nearest integer of 32 bits. -/
def clampHalfWord (n : Int) : Int :=
  max (-2147483648) (min 2147483647 n)

theorem clampWord_le_greatestWord (n : Int) : clampWord n ≤ greatestWord := by
  simp only [clampWord, leastWord, greatestWord]
  omega

theorem clampWord_of_natAbs_lt {n : Int} (h : n.natAbs < 9223372036854775808) :
    clampWord n = n := by
  simp only [clampWord, leastWord, greatestWord]
  omega

/-- The number without its fraction; an infinity counts as its sign times two to
the power 1024, and a NaN as nothing. -/
def truncate (x : Float) : Int :=
  match Binary.of? x with
  | some b => b.signed b.floorMagnitude
  | none => if x.isNaN then 0 else if isNegative x then -(twoTo 1024 : Int) else twoTo 1024

/-- The number without its fraction, held within 64 bits. -/
def truncateToWord (x : Float) : Int :=
  clampWord (truncate x)

/-- The number without its fraction, held within 32 bits. -/
def truncateToHalfWord (x : Float) : Int :=
  clampHalfWord (truncate x)

/-- An integer as the nearest number of 64 bits. -/
def ofInt (n : Int) : Float :=
  Float.ofInt n

end Rundown.Decimal
