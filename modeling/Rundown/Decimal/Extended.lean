import Rundown.Decimal.Binary

/-!
# Extended numbers

Positive numbers whose significand has at most 64 bits, eleven more than a
number of 64 bits gives room to.  A product that needs more is rounded to the
nearest such number, a half going to the even neighbour.  A power of ten is
multiplied in by hundreds, tens and ones, each product rounded, so the result
may miss the exact one by its last bits.  The exponent is not bounded here;
bounds enter when a result becomes a number of 64 bits.
-/

namespace Rundown.Decimal

/-- The value `significand * 2 ^ exponent`. -/
structure Extended where
  significand : Nat
  exponent : Int
  deriving DecidableEq, Inhabited

namespace Extended

/-- The bits of a significand. -/
def precision : Nat := 64

/-- The nearest extended number to `significand * 2 ^ exponent`. -/
def nearest (significand : Nat) (exponent : Int) : Extended :=
  let surplus := significand.log2 + 1 - precision
  ⟨roundHalfEven significand (twoTo surplus), exponent + surplus⟩

/-- The rounded product. -/
def mul (x y : Extended) : Extended :=
  nearest (x.significand * y.significand) (x.exponent + y.exponent)

/-- The nearest extended number to a power of ten. -/
def ofTenTo (power : Int) : Extended :=
  if 0 ≤ power then nearest (tenTo power.natAbs) 0
  else
    let den := tenTo power.natAbs
    let places := den.log2 + precision
    ⟨roundHalfEven (twoTo places) den, -(places : Int)⟩

/-- The significands of two numbers over a common power of two. -/
def aligned (x y : Extended) : Nat × Nat :=
  let least := min x.exponent y.exponent
  (x.significand * twoTo (x.exponent - least).natAbs,
    y.significand * twoTo (y.exponent - least).natAbs)

/-- The first number is at most the second. -/
def le (x y : Extended) : Bool :=
  let (a, b) := aligned x y
  a ≤ b

/-- The number without its fraction. -/
def floor (x : Extended) : Nat :=
  if 0 ≤ x.exponent then x.significand * twoTo x.exponent.natAbs
  else x.significand / twoTo x.exponent.natAbs

/-- The greatest finite number of 64 bits. -/
def greatestFinite : Extended := ⟨9007199254740991, 971⟩

/-- The nearest number of 64 bits.  Whatever exceeds the greatest finite one is
infinite. -/
def toFloat (x : Extended) : Float :=
  if x.significand = 0 then 0
  else if le x greatestFinite then
    let unit := max (x.exponent + x.significand.log2 - 52) (-1074)
    let shift := unit - x.exponent
    let digits :=
      if 0 ≤ shift then roundHalfEven x.significand (twoTo shift.natAbs)
      else x.significand * twoTo shift.natAbs
    Float.ofBits (UInt64.ofNat ((unit + 1074).natAbs * fractionCount + digits))
  else Float.ofBits 0x7FF0000000000000

/-- The number multiplied several times by a factor. -/
def timesOften (factor : Extended) : Nat → Extended → Extended
  | 0, x => x
  | count + 1, x => timesOften factor count (x.mul factor)

/-- The number multiplied by a power of ten. -/
def scale (x : Extended) (power : Int) : Extended :=
  let size := power.natAbs
  let step (n : Nat) : Extended := ofTenTo (if power < 0 then -(n : Int) else n)
  timesOften (step 1) (size % 10)
    (timesOften (step 10) (size / 10 % 10) (timesOften (step 100) (size / 100) x))

/-- Divide by a power of ten as long as a test holds, at most `fuel` times.  The
powers are added up in the second component. -/
def divideWhile (fuel : Nat) (test : Extended → Bool) (power : Int) (found : Extended × Int) :
    Extended × Int :=
  match fuel with
  | 0 => found
  | fuel + 1 =>
      if test found.1 then
        divideWhile fuel test power (found.1.mul (ofTenTo (-power)), found.2 + power)
      else found

/-- Divisions by one power of ten that a number of 64 bits needs at most. -/
def mostSteps : Nat := 12

/-- The number between the seventeenth and the nineteenth power of ten that
arises when a power of ten is taken away, and that power. -/
def normalize (x : Extended) : Extended × Int :=
  let atLeast (power : Int) (y : Extended) : Bool := le (ofTenTo power) y
  let below (power : Int) (y : Extended) : Bool := !atLeast power y
  let down := divideWhile mostSteps
  if atLeast 19 x then
    down (atLeast 19) 1 (down (atLeast 29) 10 (down (atLeast 119) 100 (x, 0)))
  else down (below 17) (-1) (down (below 7) (-10) (down (below (-97)) (-100) (x, 0)))

end Extended

end Rundown.Decimal
