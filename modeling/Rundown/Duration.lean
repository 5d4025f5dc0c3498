import Rundown.Decimal.Binary
import Rundown.Text.Numeral

/-!
# Durations in milliseconds

All times of a block are whole milliseconds.  Conversions from minutes and
seconds stay within 64 bits by stopping at the ends of the range.  A duration is
written as `M:SS`, and from one hour on as `H:MM:SS`, without the fraction of a
second.
-/

namespace Rundown.Duration

open Rundown.Text

/-- Milliseconds of a second. -/
def second : Int := 1000

/-- Milliseconds of a minute. -/
def minute : Int := 60 * second

/-- Whole minutes in milliseconds. -/
def ofMinutes (minutes : Int) : Int :=
  Decimal.clampWord (minutes * minute)

/-- Whole seconds in milliseconds. -/
def ofSeconds (seconds : Int) : Int :=
  Decimal.clampWord (seconds * second)

/-- The characters of a whole number of seconds. -/
def clockChars (seconds : Nat) : List Char :=
  let hours := seconds / 3600
  let minutes := seconds % 3600 / 60
  if 0 < hours then
    natChars hours ++ ':' :: twoDigits minutes ++ ':' :: twoDigits (seconds % 60)
  else natChars minutes ++ ':' :: twoDigits (seconds % 60)

/-- The text of a duration, with a minus sign for every negative one. -/
def text (ms : Int) : String :=
  let clock := clockChars (ms.natAbs / 1000)
  String.ofList (if ms < 0 then '-' :: clock else clock)

end Rundown.Duration
