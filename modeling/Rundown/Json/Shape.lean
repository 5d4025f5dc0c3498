import Rundown.Decimal.Binary
import Rundown.Json.Basic
import Rundown.Text.Numeral

/-!
# Values of a fixed shape

A record is stored as an object whose members are known by name, or as an array
with the same values in their standing order.  Unknown members are passed over;
a known one may stand once only.  The readings here are strict: a number is not
a string, a fraction is not a whole number, and null is no value.

Where anything may stand there are two readings.  A free value is taken for what
it means, so an object may stand for the value of a text that is embedded in it;
any other value is kept as it is written.
-/

namespace Rundown.Json

/-- What is expected of a value. -/
inductive Shape where
  /-- Anything, as it is written. -/
  | any
  /-- Anything, with the values of embedded texts in their place. -/
  | free
  /-- An object of free values, which is itself as it is written. -/
  | table
  /-- An array whose elements have one shape. -/
  | list (item : Shape)
  /-- A record of some fields, each with its names and its shape. -/
  | record (fields : List (List String × Shape))
  deriving Inhabited

/-- The fields of a record in their standing order. -/
abbrev Fields := List (List String × Shape)

/-- Fields that go by one name each and hold anything. -/
def plainFields (names : List String) : Fields :=
  names.map fun name => ([name], .any)

namespace Shape

/-- The shape of the first element of an array. -/
def element : Shape → Shape
  | .list item => item
  | .record ((_, first) :: _) => first
  | .free => .free
  | _ => .any

/-- The shape of an array without its first element. -/
def afterElement : Shape → Shape
  | .record fields => .record (fields.drop 1)
  | shape => shape

/-- The shape of a member, if the member is known.  Where no record is expected,
every member is. -/
def member? (key : String) : Shape → Option Shape
  | .record fields => (fields.find? fun field => field.1.contains key).map (·.2)
  | .free | .table => some .free
  | _ => some .any

end Shape

/-- A string. -/
def text? : Json → Option String
  | .str s => some s
  | _ => none

/-- A truth value. -/
def bool? : Json → Option Bool
  | .bool b => some b
  | _ => none

/-- A whole number of 64 bits. -/
def word? : Json → Option Int
  | .int n => if Text.isWord n then some n else none
  | _ => none

/-- A number, whole or not. -/
def float? : Json → Option Float
  | .int n => some (Decimal.ofInt n)
  | .real x => some x
  | _ => none

/-- An array of values of one kind. -/
def listOf? {α : Type} (decode : Json → Option α) : Json → Option (List α)
  | .arr items => items.mapM decode
  | _ => none

/-- The only value under some names; `some none` when there is none. -/
def only? (names : List String) (members : Members) : Option (Option Json) :=
  match members.filter fun member => names.contains member.1 with
  | [] => some none
  | [member] => some (some member.2)
  | _ => none

/-- The values of the fields of a record. -/
def fields? (fields : Fields) : Json → Option (List (Option Json))
  | .obj members => fields.mapM fun field => only? field.1 members
  | .arr items =>
      if items.length ≤ fields.length then
        some (fields.mapIdx fun index _ => items[index]?)
      else none
  | _ => none

/-- The value of a field that must be present. -/
def required {α : Type} (decode : Json → Option α) (field : Option Json) : Option α :=
  field.bind decode

/-- The value of a field that has a default. -/
def withDefault {α : Type} (decode : Json → Option α) (default : α) (field : Option Json) :
    Option α :=
  match field with
  | some value => decode value
  | none => some default

end Rundown.Json
