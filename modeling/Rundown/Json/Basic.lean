/-!
# JSON values

Values of the data format in which rules, libraries and results are stored.
Whole numbers and fractional numbers stay apart.  The members of an object are
kept as they are written, so a key may stand twice; `settle` keeps the last
member of each key, at every depth.
-/

namespace Rundown

/-- A JSON value. -/
inductive Json where
  | null
  | bool (b : Bool)
  | int (n : Int)
  | real (x : Float)
  | str (s : String)
  | arr (items : List Json)
  | obj (members : List (String × Json))
  deriving Inhabited

namespace Json

/-- Members of an object by key. -/
abbrev Members := List (String × Json)

/-- The value of a key, the first one when there are several. -/
def lookup? : Members → String → Option Json
  | [], _ => none
  | (name, value) :: rest, key => if name = key then some value else lookup? rest key

/-- The members without a key. -/
def erase : Members → String → Members
  | [], _ => []
  | (name, value) :: rest, key =>
      if name = key then erase rest key else (name, value) :: erase rest key

/-- The members with a key set to a value, whatever it had before. -/
def insert (members : Members) (key : String) (value : Json) : Members :=
  (key, value) :: erase members key

@[simp]
theorem lookup?_nil (key : String) : lookup? [] key = none := rfl

theorem lookup?_erase (members : Members) (key other : String) :
    lookup? (erase members key) other = if key = other then none else lookup? members other := by
  induction members with
  | nil => simp [erase]
  | cons member rest ih =>
    obtain ⟨name, value⟩ := member
    by_cases same : name = key
    · subst same
      by_cases hit : name = other <;> simp_all [erase, lookup?]
    · by_cases hit : key = other <;> simp_all [erase, lookup?]

theorem lookup?_insert (members : Members) (key other : String) (value : Json) :
    lookup? (insert members key value) other =
      if key = other then some value else lookup? members other := by
  by_cases hit : key = other
  · simp [insert, lookup?, hit]
  · simp [insert, lookup?, lookup?_erase, hit]

mutual

/-- The value with every key of every object once, the last one written. -/
def settle : Json → Json
  | .arr items => .arr (settleItems items)
  | .obj members => .obj (settleMembers members)
  | value => value

/-- Settle the elements of an array. -/
def settleItems : List Json → List Json
  | [] => []
  | item :: rest => settle item :: settleItems rest

/-- Settle the members of an object and drop those that are written again. -/
def settleMembers : Members → Members
  | [] => []
  | (key, value) :: rest =>
      let later := settleMembers rest
      if later.any (·.1 == key) then later else (key, settle value) :: later

end

/-- The word for the kind of a value. -/
def kind : Json → String
  | .null => "null"
  | .bool _ => "boolean"
  | .int _ => "number"
  | .real _ => "number"
  | .str _ => "string"
  | .arr _ => "array"
  | .obj _ => "object"

/-- The members of an object. -/
def members? : Json → Option Members
  | .obj members => some members
  | _ => none

/-- The elements of an array. -/
def items? : Json → Option (List Json)
  | .arr items => some items
  | _ => none

/-- An optional value, `null` when it is absent. -/
def ofOption {α : Type} (encode : α → Json) : Option α → Json
  | some value => encode value
  | none => .null

end Json

end Rundown
