import Rundown.Decimal.Extended
import Rundown.Decimal.Reader
import Rundown.Decimal.Shortest

/-!
# Numerals of a database

A database reads a decimal number in extended precision: it takes as many
digits as fit into 64 bits, passes over the others, and scales what it took by
the power of ten.  It writes a number with fifteen digits, found by scaling in
the other direction.  Neither is exact: a numeral that lies close to the middle
between two numbers of 64 bits may be read as the farther one.
-/

namespace Rundown.Numeral

open Rundown.Decimal

/-- A significand below this has room for one more digit. -/
def digitRoom : Nat := 1844674407370955160

/-- A significand up to this may still be multiplied by ten. -/
def tenfoldRoom : Nat := 1844674407370955160

/-- Take digits as long as there is room: the significand, and the number of
digits taken. -/
def gather (significand count : Nat) : List Char → Nat × Nat
  | [] => (significand, count)
  | c :: rest =>
      if significand < digitRoom then
        gather (10 * significand + Text.digitsValue [c]) (count + 1) rest
      else (significand, count)

/-- The written exponent.  One of more than five digits counts as ten thousand. -/
def writtenExponent (parts : Parts) : Int :=
  match parts.exponent with
  | none => 0
  | some (negative, digits) =>
      let written := Text.digitsValue digits
      let size : Nat := if written < 100000 then written else 10000
      if negative then -(size : Int) else size

/-- The digits that are taken, with the power of ten of the last one. -/
def ofParts (parts : Parts) : Scaled :=
  let (significand, count) := gather 0 0 parts.digits
  ⟨significand, writtenExponent parts + parts.whole.length - count⟩

/-- Move the exponent toward zero as far as the significand allows it without
loss, in at most `fuel` steps. -/
def settle : Nat → Scaled → Scaled
  | 0, d => d
  | fuel + 1, d =>
      if 0 < d.exponent && d.digits ≤ tenfoldRoom then
        settle fuel ⟨10 * d.digits, d.exponent - 1⟩
      else if d.exponent < 0 && d.digits % 10 == 0 then
        settle fuel ⟨d.digits / 10, d.exponent + 1⟩
      else d

/-- The number that is read from a numeral without its sign. -/
def toFloat (parts : Parts) : Float :=
  let d := ofParts parts
  if d.digits = 0 then 0
  else
    let settled := settle 20 d
    ((Extended.mk settled.digits 0).scale settled.exponent).toFloat

/-- The digits of a number that is written. -/
def writtenDigits : Nat := 15

/-- The digits of a positive number that is written, and the power of ten of the
first one.  A half is rounded up. -/
def roundedDigits (b : Binary) : Nat × Int :=
  let (x, taken) := (Extended.mk b.significand b.exponent).normalize
  let whole := x.floor
  let surplus := (Text.natChars whole).length - writtenDigits
  let digits := (2 * whole + tenTo surplus) / (2 * tenTo surplus)
  let power := taken + surplus + writtenDigits - 1
  if digits < tenTo writtenDigits then (digits, power) else (digits / 10, power + 1)

end Rundown.Numeral
