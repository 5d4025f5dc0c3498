import Rundown.Error
import Rundown.Json.Shape
import Rundown.Toml.Reader

/-!
# Settings

What a user sets once in a configuration file: where the catalog is, which
station is meant, and the defaults of a preview.  A file that is missing or
cannot be read leaves every setting at its default; a file that can be read but
does not follow its format is an error.
-/

namespace Rundown

/-- The settings of a configuration file. -/
structure Settings where
  databasePath : Option String
  libraryPath : Option String
  station : Option String
  logLevel : String
  logFile : Option String
  seed : Option Nat
  variants : Nat
  deriving DecidableEq, Inhabited

namespace Settings

/-- Nothing is set. -/
def default : Settings :=
  ⟨none, none, none, "info", none, none, 1⟩

/-- A number that is not negative. -/
def count? (value : Json) : Option Nat :=
  (value.word?.filter (0 ≤ ·)).map Int.toNat

/-- A value that may be left out. -/
def optional {α : Type} (decode : Json → Option α) (field : Option Json) : Option (Option α) :=
  match field with
  | some value => (decode value).map some
  | none => some none

/-- The values of the fields of a table, or of an array in the same order, of which
further elements are passed over. -/
def fields? (names : List String) (value : Json) : Option (List (Option Json)) :=
  let shortened :=
    match value with
    | .arr items => .arr (items.take names.length)
    | other => other
  Json.fields? (Json.plainFields names) shortened

/-- The level and the file of the log. -/
def logging? (value : Json) : Option (String × Option String) := do
  match ← fields? ["level", "file"] value with
  | [level, file] =>
      some (← Json.withDefault Json.text? default.logLevel level, ← optional Json.text? file)
  | _ => none

/-- The seed and the number of variants of a preview. -/
def preview? (value : Json) : Option (Option Nat × Nat) := do
  match ← fields? ["seed", "variants"] value with
  | [seed, variants] =>
      some (← optional count? seed, ← Json.withDefault count? default.variants variants)
  | _ => none

/-- The settings of the tables of a file. -/
def ofJson? (value : Json) : Option Settings := do
  match ← fields? ["database_path", "library_path", "station_id", "logging", "preview"] value with
  | [database, library, station, logging, preview] =>
      let (level, file) ← Json.withDefault logging? (default.logLevel, none) logging
      let (seed, variants) ← Json.withDefault preview? (none, default.variants) preview
      some
        { databasePath := ← optional Json.text? database
          libraryPath := ← optional Json.text? library
          station := ← optional Json.text? station
          logLevel := level
          logFile := file
          seed := seed
          variants := variants }
  | _ => none

/-- The settings of a file, given its text if it can be read. -/
def read (text : Option String) : Except CatalogError Settings :=
  match text with
  | none => .ok default
  | some s =>
      match (Toml.read? s).bind ofJson? with
      | some settings => .ok settings
      | none => .error .badConfiguration

/-- The configuration file that is read: the one that is named on the command line,
else the one that the environment names, else the default one if it exists. -/
def path? (argument environment : Option String) (standard : String) (standardExists : Bool) :
    Option String :=
  match argument with
  | some path => some path
  | none =>
      match environment.filter fun path => !Text.isBlankText path with
      | some path => some path
      | none => if standardExists then some standard else none

end Settings

end Rundown
