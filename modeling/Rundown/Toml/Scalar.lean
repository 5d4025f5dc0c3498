import Rundown.Decimal.Reader
import Rundown.Json.Basic
import Rundown.Schedule.Moment
import Rundown.Text.Blank

/-!
# Scalars of a configuration file

The unquoted values of the TOML format: truth values, whole numbers in four
bases, fractional numbers, and dates and times.  A value is judged from all its
characters at once, after the place where it ends has been found.
-/

namespace Rundown.Toml

open Rundown.Text

/-- The digits of a numeral without the underscores, each of which must stand
between two digits. -/
def digits? (isDigitOf : Char → Bool) (cs : List Char) : Option (List Char) :=
  let groups := piecesBetween '_' cs
  if groups.all fun g => !g.isEmpty && g.all isDigitOf then some groups.flatten else none

/-- A digit of a base of at most sixteen. -/
def digitOf? (base : Nat) (c : Char) : Option Nat :=
  let value? : Option Nat :=
    if '0' ≤ c ∧ c ≤ '9' then some (c.toNat - 48)
    else if 'a' ≤ c ∧ c ≤ 'f' then some (c.toNat - 87)
    else if 'A' ≤ c ∧ c ≤ 'F' then some (c.toNat - 55)
    else none
  value?.filter (· < base)

/-- The number that digits of a base denote. -/
def valueIn (base : Nat) (cs : List Char) : Nat :=
  cs.foldl (fun total c => base * total + (digitOf? base c).getD 0) 0

/-- A whole number of 64 bits. -/
def word? (n : Int) : Option Json :=
  if isWord n then some (.int n) else none

/-- A whole number after the mark of its base. -/
def inBase? (base : Nat) (cs : List Char) : Option Json := do
  let digits ← digits? (fun c => (digitOf? base c).isSome) cs
  word? (valueIn base digits)

/-- The digits of a decimal numeral, which has no needless zero in front. -/
def decimal? (cs : List Char) : Option (List Char) := do
  let digits ← digits? isDigit cs
  if digits.head? == some '0' && 1 < digits.length then none else some digits

/-- A whole number in decimal. -/
def whole? (cs : List Char) : Option Json := do
  let (negative, unsigned) := splitSign cs
  let magnitude := digitsValue (← decimal? unsigned)
  word? (if negative then -(magnitude : Int) else magnitude)

/-- A number with a fraction, an exponent, or both. -/
def fractional? (cs : List Char) : Option Json := do
  let (negative, unsigned) := splitSign cs
  let isMark := fun c => c = 'e' || c = 'E'
  let mantissa := unsigned.takeWhile fun c => !isMark c
  let exponent := unsigned.dropWhile fun c => !isMark c
  let whole ← decimal? (mantissa.takeWhile (· != '.'))
  let fraction ←
    match mantissa.dropWhile (· != '.') with
    | [] => some none
    | _ :: rest => (digits? isDigit rest).map some
  let power ←
    match exponent with
    | [] => some none
    | _ :: rest =>
        let (down, plain) := splitSign rest
        (digits? isDigit plain).map fun digits => some (down, digits)
  if fraction.isNone && power.isNone then none
  else
    let magnitude := (Decimal.Parts.mk whole fraction power).toFloat
    if magnitude.isFinite || negative then some (.real (Decimal.withSign negative magnitude))
    else none

/-- An infinity, or the value that is no number. -/
def special? (cs : List Char) : Option Json :=
  let (negative, word) := splitSign cs
  if word = ['i', 'n', 'f'] then some (.real (Decimal.withSign negative (1 / 0)))
  else if word = ['n', 'a', 'n'] then some (.real (0 / 0))
  else none

/-- A time of day, and what follows it. -/
def time? (cs : List Char) : Option (List Char) := do
  let (hour, cs) ← Moment.readDigits? 2 cs
  let cs ← Moment.expect? ':' cs
  let (minute, cs) ← Moment.readDigits? 2 cs
  let cs ← Moment.expect? ':' cs
  let (second, cs) ← Moment.readDigits? 2 cs
  let (_, cs) ← Moment.readFraction? cs
  if hour < 24 && minute < 60 && second ≤ 60 then some cs else none

/-- A date, and what follows it. -/
def date? (cs : List Char) : Option (List Char) := do
  let (year, cs) ← Moment.readDigits? 4 cs
  let cs ← Moment.expect? '-' cs
  let (month, cs) ← Moment.readDigits? 2 cs
  let cs ← Moment.expect? '-' cs
  let (day, cs) ← Moment.readDigits? 2 cs
  if 1 ≤ month && month ≤ 12 && 1 ≤ day && day ≤ Moment.daysInMonth year month then some cs
  else none

/-- A date, a time of day, or both, perhaps with the distance from universal
time. -/
def isDateTime (cs : List Char) : Bool :=
  match date? cs with
  | some [] => true
  | some rest =>
      match (Moment.expectMark? rest).bind time? with
      | some [] => true
      | some after => (Moment.readOffset? after).map (·.2) == some []
      | none => false
  | none => time? cs == some []

/-- A date or time as a record, which no field of a configuration accepts as a
text or a number. -/
def dateTime? (cs : List Char) : Option Json :=
  if isDateTime cs then some (.obj [("datetime", .str (String.ofList cs))]) else none

/-- The value of an unquoted scalar. -/
def scalar? (cs : List Char) : Option Json :=
  match cs with
  | ['t', 'r', 'u', 'e'] => some (.bool true)
  | ['f', 'a', 'l', 's', 'e'] => some (.bool false)
  | '0' :: 'x' :: rest => inBase? 16 rest
  | '0' :: 'o' :: rest => inBase? 8 rest
  | '0' :: 'b' :: rest => inBase? 2 rest
  | _ => dateTime? cs <|> whole? cs <|> fractional? cs <|> special? cs

end Rundown.Toml
