import Rundown.Catalog.Numeral
import Rundown.Text.Blank

/-!
# Cells of a database

A cell holds a whole number, a fractional number or a text, or is empty.  A
column prefers one of these and converts what it is given when nothing is lost
by it; whatever cannot be converted is kept as it is.  A query later forces
cells to one kind, reading as much of a text as denotes a number.
-/

namespace Rundown

/-- The content of a cell. -/
inductive Cell where
  /-- No content. -/
  | empty
  | whole (n : Int)
  | real (x : Float)
  | text (s : String)
  deriving Inhabited

/-- The kind of content that a column prefers. -/
inductive Affinity where
  | whole
  | real
  | text
  deriving DecidableEq

namespace Cell

/-- A blank before or after a number. -/
def isSpace (c : Char) : Bool :=
  c = ' ' || (9 ≤ c.toNat && c.toNat ≤ 13)

/-- The number at the start of a text. -/
structure Prefixed where
  negative : Bool
  parts : Decimal.Parts
  /-- Nothing but blanks follows the number. -/
  complete : Bool

/-- An exponent counts only when it has digits. -/
def settleExponent (parts : Decimal.Parts) : Decimal.Parts :=
  if parts.exponentComplete then parts else { parts with exponent := none }

/-- The number at the start of a text, if there is a digit. -/
def number? (s : String) : Option Prefixed :=
  let (negative, unsigned) := Text.splitSign (s.toList.dropWhile isSpace)
  let (parts, after) := Decimal.scan unsigned
  if parts.digits.isEmpty then none
  else some ⟨negative, settleExponent parts, parts.exponentComplete && after.all isSpace⟩

/-- The number has neither a point nor an exponent. -/
def Prefixed.isWhole (p : Prefixed) : Bool :=
  p.parts.fraction.isNone && p.parts.exponent.isNone

/-- The whole part of the number. -/
def Prefixed.wholePart (p : Prefixed) : Int :=
  let magnitude := Text.digitsValue p.parts.whole
  if p.negative then -(magnitude : Int) else magnitude

/-- The number. -/
def Prefixed.toFloat (p : Prefixed) : Float :=
  Decimal.withSign p.negative (Numeral.toFloat p.parts)

/-- A number without a fraction becomes whole, unless it lies at or beyond the
ends of 64 bits. -/
def tidy (x : Float) : Cell :=
  let n := Decimal.truncate x
  if Decimal.ofInt n == x && Decimal.leastWord < n && n < Decimal.greatestWord then .whole n
  else .real x

/-- Digits with a point after the first, an exponent of at least two digits, and
at least one digit on each side of the point. -/
def scientific (digits : List Char) (power : Int) : List Char :=
  let fraction := digits.drop 1
  digits.take 1 ++ '.' :: (if fraction.isEmpty then ['0'] else fraction) ++
    'e' :: (if power < 0 then '-' else '+') :: Text.twoDigits power.natAbs

/-- The text that a number becomes in a text column. -/
def realText (x : Float) : String :=
  let sign := if x < 0 then ['-'] else []
  match Decimal.Binary.of? x with
  | none => String.ofList (sign ++ "Inf".toList)
  | some b =>
      if b.significand = 0 then "0.0"
      else
        let (digits, power) := Numeral.roundedDigits b
        let shown := Text.dropTrailing (· == '0') (Text.natChars digits)
        String.ofList
          (sign ++
            if -4 ≤ power && power < Numeral.writtenDigits then Decimal.positional shown power
            else scientific shown power)

/-- A column of fractional numbers keeps whole ones without the sign of zero. -/
def plainZero (x : Float) : Float :=
  if x == 0 then 0 else x

/-- What a column keeps of a value. -/
def store : Affinity → Cell → Cell
  | _, .empty => .empty
  | .text, .whole n => .text (Text.intText n)
  | .text, .real x => .text (realText x)
  | .text, .text s => .text s
  | .real, .whole n => .real (Decimal.ofInt n)
  | .real, .real x => .real (plainZero x)
  | .real, .text s =>
      match number? s with
      | some p =>
          if p.complete then
            .real (if p.isWhole && Text.isWord p.wholePart then Decimal.ofInt p.wholePart
              else plainZero p.toFloat)
          else .text s
      | none => .text s
  | .whole, .whole n => .whole n
  | .whole, .real x => tidy x
  | .whole, .text s =>
      match number? s with
      | some p =>
          if p.complete then
            if p.isWhole && Text.isWord p.wholePart then .whole p.wholePart else tidy p.toFloat
          else .text s
      | none => .text s

/-- The content as text. -/
def asText : Cell → String
  | .empty => ""
  | .whole n => Text.intText n
  | .real x => realText x
  | .text s => s

/-- The fractional number that a text starts with; without digits there is at most
the sign of zero. -/
def realAtStart (s : String) : Float :=
  match number? s with
  | some p => p.toFloat
  | none => Decimal.withSign (Text.splitSign (s.toList.dropWhile isSpace)).1 0

/-- The content as a fractional number, zero when there is none. -/
def asReal : Cell → Float
  | .empty => 0
  | .whole n => Decimal.ofInt n
  | .real x => x
  | .text s => realAtStart s

/-- The whole number that a text starts with, held within 64 bits. -/
def wholeAtStart (s : String) : Int :=
  let (negative, unsigned) := Text.splitSign (s.toList.dropWhile isSpace)
  let magnitude := Text.digitsValue (unsigned.takeWhile Text.isDigit)
  Decimal.clampWord (if negative then -(magnitude : Int) else magnitude)

/-- The content as a whole number, zero when there is none. -/
def asWhole : Cell → Int
  | .empty => 0
  | .whole n => n
  | .real x => Decimal.truncateToWord x
  | .text s => wholeAtStart s

/-- The content is the whole number one. -/
def isOne : Cell → Bool
  | .empty => false
  | .whole n => n == 1
  | .real x => x == 1
  | .text _ => false

end Cell

end Rundown
