import Rundown.Text.Numeral

/-!
# Reading decimal numbers

A decimal number is a run of digits with an optional point and an optional
exponent.  It is read as the nearest number of 64 bits.  Two notations are
accepted elsewhere in the library and differ in what may be left out, so the
scanner here reports the parts it found and leaves that decision to its caller.
-/

namespace Rundown.Decimal

open Rundown.Text

/-- The parts of a decimal number without its sign, as written. -/
structure Parts where
  whole : List Char
  /-- The digits after the point, when there is a point. -/
  fraction : Option (List Char)
  /-- The sign and the digits of the exponent, when there is one. -/
  exponent : Option (Bool × List Char)

/-- The leading digits and the rest. -/
def spanDigits (cs : List Char) : List Char × List Char :=
  (cs.takeWhile isDigit, cs.dropWhile isDigit)

/-- Split off the exponent: the letter E, an optional sign and digits. -/
def scanExponent (cs : List Char) : Option (Bool × List Char) × List Char :=
  match cs with
  | e :: rest =>
      if e = 'e' || e = 'E' then
        let (negative, unsigned) := splitSign rest
        let (digits, after) := spanDigits unsigned
        (some (negative, digits), after)
      else (none, cs)
  | [] => (none, [])

/-- Split a decimal number into its parts and what follows it. -/
def scan (cs : List Char) : Parts × List Char :=
  let (whole, afterWhole) := spanDigits cs
  match afterWhole with
  | '.' :: rest =>
      let (digits, afterFraction) := spanDigits rest
      let (exponent, after) := scanExponent afterFraction
      (⟨whole, some digits, exponent⟩, after)
  | _ =>
      let (exponent, after) := scanExponent afterWhole
      (⟨whole, none, exponent⟩, after)

/-- The number nearest to `significand * 10 ^ exponent`.  Exponents beyond every
number of 64 bits are settled without forming the power. -/
def ofPower (significand : Nat) (exponent : Int) : Float :=
  if significand = 0 then 0
  else if 400 < exponent then Float.ofScientific 1 false 400
  else if exponent + significand.log2 + 1 < -400 then 0
  else Float.ofScientific significand (exponent < 0) exponent.natAbs

/-- The digits of the number, without the point. -/
def Parts.digits (p : Parts) : List Char :=
  p.whole ++ p.fraction.getD []

/-- The power of ten that the last digit stands for. -/
def Parts.power (p : Parts) : Int :=
  let written : Int :=
    match p.exponent with
    | some (negative, digits) => if negative then -(digitsValue digits : Int) else digitsValue digits
    | none => 0
  written - (p.fraction.getD []).length

/-- The nearest number of 64 bits, an infinity when it is too large. -/
def Parts.toFloat (p : Parts) : Float :=
  ofPower (digitsValue p.digits) p.power

/-- An exponent, when there is one, has digits. -/
def Parts.exponentComplete (p : Parts) : Bool :=
  match p.exponent with
  | some (_, digits) => !digits.isEmpty
  | none => true

/-- Negate when a minus sign was read. -/
def withSign (negative : Bool) (x : Float) : Float :=
  if negative then -x else x

/-- The finite number that a text denotes: an optional sign, digits with a point
anywhere among them, and an optional exponent, with nothing before or after. -/
def read? (cs : List Char) : Option Float :=
  let (negative, unsigned) := splitSign cs
  let (parts, after) := scan unsigned
  if after.isEmpty && !parts.digits.isEmpty && parts.exponentComplete then
    let x := withSign negative parts.toFloat
    if x.isFinite then some x else none
  else none

end Rundown.Decimal
