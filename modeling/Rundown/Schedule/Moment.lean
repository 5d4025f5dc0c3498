import Rundown.Decimal.Power
import Rundown.Decimal.Reader
import Rundown.Text.Numeral

/-!
# Moments of the calendar

A moment is counted in seconds from the start of 1970 in universal time.  Within
a leap second its fraction reaches past a whole second.  Moments are written and
read as dates with a time of day.
-/

namespace Rundown

/-- A moment in universal time. -/
structure Moment where
  /-- Seconds since the start of 1970. -/
  seconds : Int
  /-- Nanoseconds of the second, a thousand million or more in a leap second. -/
  nanos : Nat
  deriving DecidableEq, Inhabited

namespace Moment

/-- Nanoseconds of a second. -/
def nanosPerSecond : Nat := 1000000000

/-- Seconds of a day. -/
def secondsPerDay : Nat := 86400

/-- A date of the calendar. -/
structure Date where
  year : Int
  month : Nat
  day : Nat
  deriving DecidableEq, Inhabited

/-- The year has a 29th of February. -/
def isLeapYear (year : Int) : Bool :=
  year % 4 == 0 && (year % 100 != 0 || year % 400 == 0)

/-- The days of a month. -/
def daysInMonth (year : Int) (month : Nat) : Nat :=
  if month = 2 then (if isLeapYear year then 29 else 28)
  else if month = 4 || month = 6 || month = 9 || month = 11 then 30
  else 31

/-- The days from the start of 1970 to a date.  Years are counted from March, so
that the leap day comes last. -/
def daysOfDate (d : Date) : Int :=
  let year := if d.month ≤ 2 then d.year - 1 else d.year
  let era := year.fdiv 400
  let yearOfEra := year - era * 400
  let month : Int := ((d.month + 9) % 12 : Nat)
  let dayOfYear := (153 * month + 2) / 5 + d.day - 1
  let dayOfEra := yearOfEra * 365 + yearOfEra / 4 - yearOfEra / 100 + dayOfYear
  era * 146097 + dayOfEra - 719468

/-- The date that lies so many days after the start of 1970. -/
def dateOfDays (days : Int) : Date :=
  let shifted := days + 719468
  let era := shifted.fdiv 146097
  let dayOfEra := shifted - era * 146097
  let yearOfEra := (dayOfEra - dayOfEra / 1460 + dayOfEra / 36524 - dayOfEra / 146096) / 365
  let dayOfYear := dayOfEra - (365 * yearOfEra + yearOfEra / 4 - yearOfEra / 100)
  let month := (5 * dayOfYear + 2) / 153
  let day := dayOfYear - (153 * month + 2) / 5 + 1
  let calendarMonth := if month < 10 then month + 3 else month - 9
  let year := yearOfEra + era * 400
  ⟨if calendarMonth ≤ 2 then year + 1 else year, calendarMonth.toNat, day.toNat⟩

/-- The moment so many milliseconds later.  A leap second is left only by a step
that leads out of it. -/
def after (m : Moment) (ms : Int) : Moment :=
  let whole := ms.tdiv 1000
  let part := ms.tmod 1000 * 1000000
  let inLeap := decide (nanosPerSecond ≤ m.nanos)
  if inLeap && whole == 0 && (part ≤ 0 || m.nanos + part < 2 * nanosPerSecond) then
    ⟨m.seconds, (m.nanos + part).toNat⟩
  else
    let base : Int := if inLeap then m.nanos - nanosPerSecond else m.nanos
    let start := if inLeap && whole < 0 then m.seconds + 1 else m.seconds
    let nanos := base + part
    ⟨start + whole + nanos.fdiv nanosPerSecond, (nanos.fmod nanosPerSecond).toNat⟩

/-! ## Writing -/

/-- The parts of a moment on the clock: hour, minute and second, which is 60 in a
leap second, and the nanoseconds of the second. -/
def clock (m : Moment) : Nat × Nat × Nat × Nat :=
  let second := (m.seconds.fmod secondsPerDay).toNat
  let extra := m.nanos / nanosPerSecond
  (second / 3600, second % 3600 / 60, second % 60 + extra, m.nanos % nanosPerSecond)

/-- The date of a moment. -/
def date (m : Moment) : Date :=
  dateOfDays (m.seconds.fdiv secondsPerDay)

/-- A year with four digits, and with a sign when four digits do not hold it. -/
def yearChars (year : Int) : List Char :=
  if 0 ≤ year ∧ year ≤ 9999 then Text.padLeft 4 '0' (Text.natChars year.toNat)
  else (if year < 0 then '-' else '+') :: Text.padLeft 4 '0' (Text.natChars year.natAbs)

/-- A date as year, month and day. -/
def dateChars (d : Date) : List Char :=
  yearChars d.year ++ '-' :: Text.twoDigits d.month ++ '-' :: Text.twoDigits d.day

/-- A time of day as hour, minute and second. -/
def clockChars (m : Moment) : List Char :=
  let (hour, minute, second, _) := m.clock
  Text.twoDigits hour ++ ':' :: Text.twoDigits minute ++ ':' :: Text.twoDigits second

/-- A fraction of a second with the fewest digits of 0, 3, 6 and 9 that hold it. -/
def fractionChars (nanos : Nat) : List Char :=
  if nanos = 0 then []
  else if nanos % 1000000 = 0 then '.' :: Text.padLeft 3 '0' (Text.natChars (nanos / 1000000))
  else if nanos % 1000 = 0 then '.' :: Text.padLeft 6 '0' (Text.natChars (nanos / 1000))
  else '.' :: Text.padLeft 9 '0' (Text.natChars nanos)

/-- The moment in the notation of the Internet, in universal time. -/
def text (m : Moment) : String :=
  String.ofList (dateChars m.date ++ 'T' :: m.clockChars ++ fractionChars m.clock.2.2.2 ++ ['Z'])

/-- The moment as date and time of day. -/
def dateTimeText (m : Moment) : String :=
  String.ofList (dateChars m.date ++ ' ' :: m.clockChars)

/-- The time of day of a moment. -/
def timeText (m : Moment) : String :=
  String.ofList m.clockChars

/-! ## Reading -/

/-- Exactly `count` digits, and what follows them. -/
def readDigits? (count : Nat) (cs : List Char) : Option (Nat × List Char) :=
  let digits := cs.take count
  if digits.length = count && digits.all Text.isDigit then
    some (Text.digitsValue digits, cs.drop count)
  else none

/-- What follows a character that must come next. -/
def expect? (c : Char) : List Char → Option (List Char)
  | first :: rest => if first = c then some rest else none
  | [] => none

/-- The nanoseconds of a fraction, which may be absent; digits beyond the ninth
are dropped. -/
def readFraction? (cs : List Char) : Option (Nat × List Char) :=
  match cs with
  | '.' :: rest =>
      let (digits, after) := Decimal.spanDigits rest
      if digits.isEmpty then none
      else
        let kept := digits.take 9
        some (Text.digitsValue kept * Decimal.tenTo (9 - kept.length), after)
  | _ => some (0, cs)

/-- The sign of a distance from universal time; the typographic minus counts too. -/
def readSign? : List Char → Option (Int × List Char)
  | '+' :: rest => some (1, rest)
  | '-' :: rest => some (-1, rest)
  | '−' :: rest => some (-1, rest)
  | _ => none

/-- The seconds by which a local time is ahead of universal time. -/
def readOffset? (cs : List Char) : Option (Int × List Char) :=
  match cs with
  | 'Z' :: rest => some (0, rest)
  | 'z' :: rest => some (0, rest)
  | _ => do
      let (sign, rest) ← readSign? cs
      let (hours, rest) ← readDigits? 2 rest
      let rest ← expect? ':' rest
      let (minutes, rest) ← readDigits? 2 rest
      if hours < 24 && minutes < 60 then
        some (sign * ((hours * 60 + minutes) * 60 : Nat), rest)
      else none

/-- What follows the mark between a date and a time of day. -/
def expectMark? : List Char → Option (List Char)
  | c :: rest => if c = 'T' || c = 't' || c = ' ' then some rest else none
  | [] => none

/-- Read a moment in the notation of the Internet: a date, a time of day with
seconds, and the distance from universal time. -/
def read? (s : String) : Option Moment := do
  let (year, cs) ← readDigits? 4 s.toList
  let cs ← expect? '-' cs
  let (month, cs) ← readDigits? 2 cs
  let cs ← expect? '-' cs
  let (day, cs) ← readDigits? 2 cs
  let cs ← expectMark? cs
  let (hour, cs) ← readDigits? 2 cs
  let cs ← expect? ':' cs
  let (minute, cs) ← readDigits? 2 cs
  let cs ← expect? ':' cs
  let (second, cs) ← readDigits? 2 cs
  let (nanos, cs) ← readFraction? cs
  let (offset, cs) ← readOffset? cs
  if cs.isEmpty && 1 ≤ month && month ≤ 12 && 1 ≤ day && day ≤ daysInMonth year month &&
      hour < 24 && minute < 60 && second ≤ 60 then
    let days := daysOfDate ⟨year, month, day⟩
    let leap := second == 60
    let inDay : Nat := hour * 3600 + minute * 60 + (if leap then 59 else second)
    some ⟨days * secondsPerDay + inDay - offset,
      if leap then nanos + nanosPerSecond else nanos⟩
  else none

end Moment

end Rundown
