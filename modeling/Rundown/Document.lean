import Rundown.Json.Lenient
import Rundown.Json.Reader

/-!
# Rule and sequence documents

A block of a programme is described by two loosely typed objects, its rules and
its sequence settings.  A document keeps the object as it was stored, so that
what this library does not know survives, and its fields are read leniently.
-/

namespace Rundown

/-- A stored object with its fields. -/
structure Document where
  fields : Json.Members
  deriving Inhabited

/-- Why a stored text is no document. -/
inductive DocumentError where
  /-- The text is not JSON. -/
  | malformed
  /-- The text holds a value of another kind than an object. -/
  | notAnObject (kind : String)

/-- The wording of a refusal; `malformed` stands for the report of the reader. -/
def DocumentError.message : DocumentError → String
  | .malformed => "<syntax>"
  | .notAnObject kind => "expected a JSON object, got " ++ kind

namespace Document

/-- The document without fields. -/
def empty : Document := ⟨[]⟩

/-- The fields of an object; any other value is an empty document. -/
def ofJson : Json → Document
  | .obj members => ⟨members⟩
  | _ => empty

/-- Read a stored text.  A blank text and null are the empty document, and any
other value that is not an object is refused. -/
def read (s : String) : Except DocumentError Document :=
  if Text.isBlankText s then .ok empty
  else
    match Json.read? s with
    | none => .error .malformed
    | some (.obj members) => .ok ⟨members⟩
    | some .null => .ok empty
    | some other => .error (.notAnObject other.kind)

/-- The document as one value. -/
def toJson (d : Document) : Json :=
  .obj d.fields

/-- No fields are set. -/
def isEmpty (d : Document) : Bool :=
  d.fields.isEmpty

/-- The stored value of a field. -/
def get? (d : Document) (key : String) : Option Json :=
  Json.lookup? d.fields key

/-- Set a field, replacing any earlier value. -/
def set (d : Document) (key : String) (value : Json) : Document :=
  ⟨Json.insert d.fields key value⟩

/-- Remove a field. -/
def remove (d : Document) (key : String) : Document :=
  ⟨Json.erase d.fields key⟩

/-- The value of the first field that is present and not null. -/
def firstOf? (d : Document) (keys : List String) : Option Json :=
  Json.firstOf? d.fields keys

/-- The label of a field. -/
def label? (d : Document) (key : String) : Option String :=
  Json.labelAt? d.fields key

/-- The switch of a field, off when it is absent or unreadable. -/
def truth (d : Document) (key : String) : Bool :=
  Json.truthAt d.fields key

/-- The whole number of a field. -/
def whole? (d : Document) (key : String) : Option Int :=
  Json.wholeAt? d.fields key

/-- The members of a field that holds an object. -/
def members? (d : Document) (key : String) : Option Json.Members :=
  Json.membersAt? d.fields key

/-- The elements of a field that holds an array. -/
def items (d : Document) (key : String) : List Json :=
  Json.itemsAt d.fields key

theorem get?_set (d : Document) (key other : String) (value : Json) :
    (d.set key value).get? other = if key = other then some value else d.get? other :=
  Json.lookup?_insert d.fields key other value

theorem get?_remove (d : Document) (key other : String) :
    (d.remove key).get? other = if key = other then none else d.get? other :=
  Json.lookup?_erase d.fields key other

end Document

end Rundown
