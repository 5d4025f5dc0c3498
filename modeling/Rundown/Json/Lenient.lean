import Rundown.Json.Basic
import Rundown.Decimal.Binary
import Rundown.Decimal.Reader
import Rundown.Decimal.Shortest
import Rundown.Text.Blank
import Rundown.Text.Lowercase

/-!
# Lenient readings of a JSON value

A dashboard stores numbers as strings and switches as words.  Each reading here
takes whatever can be understood as the wanted kind and reports anything else as
absent, so that a default can take its place.
-/

namespace Rundown.Json

open Rundown.Text

/-- A number, or a string that denotes a finite one. -/
def number? : Json → Option Float
  | .int n => some (Decimal.ofInt n)
  | .real x => some x
  | .str s => Decimal.read? (trim s).toList
  | _ => none

/-- A number without its fraction, held within 64 bits. -/
def whole? (value : Json) : Option Int :=
  value.number?.map Decimal.truncateToWord

/-- The words that switch something on, in any mixture of cases. -/
def switchWords : List String := ["true", "on", "yes", "1"]

/-- A switch: true, one of the words for it, or a number other than zero. -/
def truth : Json → Bool
  | .bool b => b
  | .str s => switchWords.contains (lowerAscii (trim s))
  | .int n => Decimal.ofInt n != 0
  | .real x => x != 0
  | _ => false

/-- A trimmed string, when it is not empty, or the text of a number. -/
def label? : Json → Option String
  | .str s => nonBlank? s
  | .int n => some (intText n)
  | .real x => some (Decimal.text x)
  | _ => none

/-- A list of labels, or the parts between the commas of a string. -/
def labels : Json → List String
  | .arr items => items.filterMap label?
  | .str s => commaParts s
  | _ => []

/-- A lower and an upper bound, in an object or an array; zero means unbounded. -/
def bounds (value : Json) : Option Float × Option Float :=
  let (low, high) :=
    match value with
    | .obj members => ((lookup? members "min").bind number?, (lookup? members "max").bind number?)
    | .arr items => ((items.head?).bind number?, ((items.drop 1).head?).bind number?)
    | _ => (none, none)
  (low.filter (· != 0), high.filter (· != 0))

/-- The value of the first key that is present and not null. -/
def firstOf? (members : Members) (keys : List String) : Option Json :=
  keys.findSome? fun key =>
    match lookup? members key with
    | some .null => none
    | found => found

/-- The label under a key. -/
def labelAt? (members : Members) (key : String) : Option String :=
  (lookup? members key).bind label?

/-- The switch under a key, off when the key is absent. -/
def truthAt (members : Members) (key : String) : Bool :=
  ((lookup? members key).map truth).getD false

/-- The whole number under a key. -/
def wholeAt? (members : Members) (key : String) : Option Int :=
  (lookup? members key).bind whole?

/-- The object under a key. -/
def membersAt? (members : Members) (key : String) : Option Members :=
  (lookup? members key).bind members?

/-- The elements of the array under a key, none when there is no array. -/
def itemsAt (members : Members) (key : String) : List Json :=
  ((lookup? members key).bind items?).getD []

end Rundown.Json
