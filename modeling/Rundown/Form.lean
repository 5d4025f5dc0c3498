import Rundown.Catalog.Block
import Rundown.Error
import Rundown.Plan.Normalize

/-!
# Submitted forms

A block is submitted as pairs of names and values, the way a browser sends a
form: names may repeat, and of several values the last one that is not blank
counts.  Whole documents may be submitted, and single fields are then laid over
them.  This is where input is judged: a field that cannot be accepted is
reported by name, the first one in the order of the checks below.
-/

namespace Rundown

/-- The pairs of a form as submitted. -/
abbrev FormFields := List (String × String)

namespace FormFields

/-- The last value of a name that is not blank, trimmed. -/
def value? (fields : FormFields) (name : String) : Option String :=
  fields.reverse.findSome? fun (key, value) => if key = name then Text.nonBlank? value else none

/-- All values of a name that are not blank, trimmed, with the values of the name
followed by a pair of brackets. -/
def values (fields : FormFields) (name : String) : List String :=
  fields.filterMap fun (key, value) =>
    if key = name || key = name ++ "[]" then Text.nonBlank? value else none

/-- The name was submitted, whatever its value. -/
def has (fields : FormFields) (name : String) : Bool :=
  fields.any (·.1 = name)

/-- A checkbox: absent, or whether its value switches it on. -/
def flag? (fields : FormFields) (name : String) : Option Bool :=
  if fields.has name then
    some (((fields.value? name).map fun v => Json.truth (.str v)).getD false)
  else none

/-- A submitted value between quotes, with a remark. -/
def quoted (value remark : String) : String :=
  "'" ++ value ++ "' " ++ remark

/-- A whole number of 64 bits, if the field was submitted. -/
def whole? (fields : FormFields) (name : String) : Except BlockError (Option Int) :=
  match fields.value? name with
  | none => .ok none
  | some v =>
      match Text.readWord? v with
      | some n => .ok (some n)
      | none => .error (.invalidForm name (quoted v "is not a whole number"))

/-- A finite number, if the field was submitted. -/
def number? (fields : FormFields) (name : String) : Except BlockError (Option Float) :=
  match fields.value? name with
  | none => .ok none
  | some v =>
      match Decimal.read? v.toList with
      | some x => .ok (some x)
      | none => .error (.invalidForm name (quoted v "is not a number"))

end FormFields

/-- What a form submits: a block without its identity. -/
structure Submission where
  name : String
  description : String
  rules : Document
  sequence : Document
  deriving Inhabited

/-- The submitted block under an identity. -/
def Submission.toBlock (s : Submission) (id : String) : Block :=
  ⟨id, s.name, s.description, s.rules, s.sequence⟩

namespace Submission

/-- Set a field when there is a value for it. -/
def setIf (d : Document) (key : String) (value : Option Json) : Document :=
  match value with
  | some v => d.set key v
  | none => d

/-- Set each field of a list that was submitted, as text. -/
def overlayTexts (fields : FormFields) (keys : List String) (d : Document) : Document :=
  keys.foldl (fun d key => setIf d key ((fields.value? key).map Json.str)) d

/-- Set each switch of a list that was submitted. -/
def overlayFlags (fields : FormFields) (keys : List String) (d : Document) : Document :=
  keys.foldl (fun d key => setIf d key ((fields.flag? key).map Json.bool)) d

/-- The fields of the rules that are submitted as text. -/
def textKeys : List String :=
  ["genre", "artist", "mood", "language", "text_search", "era"]

/-- The switches of the rules. -/
def flagKeys : List String :=
  ["excludeExplicit", "includePublicArchive", "allowRepeats", "quotasEnabled",
    "fallbacksEnabled", "boostersEnabled"]

/-- The accepted length of a block in minutes. -/
def minutesRange : Int × Int := (1, Plan.greatestMinutes)

/-- The length of the block in minutes, if submitted. -/
def targetMinutes? (fields : FormFields) : Except BlockError (Option Int) := do
  match ← fields.whole? "targetMinutes" with
  | none => .ok none
  | some minutes =>
      if minutesRange.1 ≤ minutes ∧ minutes ≤ minutesRange.2 then .ok (some minutes)
      else
        .error (.invalidForm "targetMinutes"
          ("must be between " ++ Text.intText minutesRange.1 ++ " and " ++
            Text.intText minutesRange.2))

/-- Bounds as an object that holds those which were submitted, if any was. -/
def rangeOf? (low high : Option Json) : Option Json :=
  match low, high with
  | none, none => none
  | _, _ =>
      some (.obj ((low.toList.map fun v => ("min", v)) ++ (high.toList.map fun v => ("max", v))))

/-- Lay the filters over the rules. -/
def overlayFilters (fields : FormFields) (rules : Document) : Except BlockError Document := do
  let rules := overlayTexts fields textKeys rules
  let minutes ← targetMinutes? fields
  let seconds ← fields.whole? "durationAccuracy"
  let slowest ← fields.number? "bpmMin"
  let fastest ← fields.number? "bpmMax"
  let earliest ← fields.whole? "yearMin"
  let latest ← fields.whole? "yearMax"
  let rules := setIf rules "targetMinutes" (minutes.map Json.int)
  let rules := setIf rules "durationAccuracy" (seconds.map Json.int)
  let rules := setIf rules "bpmRange" (rangeOf? (slowest.map Json.real) (fastest.map Json.real))
  let rules := setIf rules "yearRange" (rangeOf? (earliest.map Json.int) (latest.map Json.int))
  let playlists := fields.values "sourcePlaylists"
  let rules :=
    if playlists.isEmpty then rules
    else (rules.remove "source_playlists").set "sourcePlaylists" (.arr (playlists.map Json.str))
  .ok (overlayFlags fields flagKeys rules)

/-- The members under a key, none when there is no object. -/
def membersAt (d : Document) (key : String) : Json.Members :=
  (d.members? key).getD []

/-- The gap of an attribute in minutes, if submitted. -/
def gap? (fields : FormFields) (a : Attribute) : Except BlockError (Option Float) := do
  let name := "separation_" ++ a.name
  match ← fields.number? name with
  | none => .ok none
  | some minutes =>
      if minutes < 0 then .error (.invalidForm name "must not be negative")
      else .ok (some minutes)

/-- Members of which some are set from a form; the flag tells whether any was. -/
structure Overlaid where
  members : Json.Members
  touched : Bool

namespace Overlaid

/-- Set a member when there is a value for it. -/
def setIf (o : Overlaid) (key : String) (value : Option Json) : Overlaid :=
  match value with
  | some v => ⟨Json.insert o.members key v, true⟩
  | none => o

/-- Put the members back under a key if any was set. -/
def store (o : Overlaid) (d : Document) (key : String) : Document :=
  if o.touched then d.set key (.obj o.members) else d

end Overlaid

/-- Lay the separation over the rules. -/
def overlaySeparation (fields : FormFields) (rules : Document) : Except BlockError Document := do
  let rules := overlayFlags fields ["separationEnabled"] rules
  let overlaid ← Attribute.separable.foldlM
    (fun (o : Overlaid) a => return o.setIf a.name ((← gap? fields a).map Json.real))
    ⟨membersAt rules "separation", false⟩
  .ok (overlaid.store rules "separation")

/-- The fields that describe a source of interstitials, with the members they set. -/
def sourceKeys : List (String × String) :=
  [("ads_source_type", "sourceType"), ("ads_playlist", "playlistID"), ("ads_genre", "genre"),
    ("ads_query", "query")]

/-- The fields that count breaks, with the members they set. -/
def countKeys : List (String × String) :=
  [("ads_every", "every"), ("ads_per_break", "perBreak")]

/-- A count of at least one, if submitted. -/
def count? (fields : FormFields) (name : String) : Except BlockError (Option Int) := do
  match ← fields.whole? name with
  | none => .ok none
  | some n =>
      if n < 1 then .error (.invalidForm name "must be at least 1") else .ok (some n)

/-- Lay the interstitials over the rules. -/
def overlayBreaks (fields : FormFields) (rules : Document) : Except BlockError Document := do
  let breaks : Overlaid := ⟨membersAt rules "interstitials", false⟩
  let breaks := breaks.setIf "enabled" ((fields.flag? "ads_enabled").map Json.bool)
  let breaks := sourceKeys.foldl
    (fun o (name, key) => o.setIf key ((fields.value? name).map Json.str)) breaks
  let breaks ← countKeys.foldlM
    (fun (o : Overlaid) (name, key) => return o.setIf key ((← count? fields name).map Json.int))
    breaks
  .ok (breaks.store rules "interstitials")

/-- An energy level from 0 to 100. -/
def energyLevel (part : String) : Except BlockError Int :=
  match (Text.readWord? part).filter fun n => 0 ≤ n && n ≤ 100 with
  | some n => .ok n
  | none =>
      .error (.invalidForm "energyCurve" (FormFields.quoted part "is not a value between 0 and 100"))

/-- The energy curve, levels between commas, if submitted. -/
def energyCurve? (fields : FormFields) : Except BlockError (Option Json) :=
  match fields.value? "energyCurve" with
  | none => .ok none
  | some text => do
      let levels ← (Text.commaParts text).mapM energyLevel
      .ok (some (.arr (levels.map Json.int)))

/-- Lay the sequence settings over the sequence document. -/
def overlaySequence (fields : FormFields) (sequence : Document) : Except BlockError Document := do
  let sequence := overlayTexts fields ["mode"] sequence
  let sequence := overlayFlags fields ["energyEnabled"] sequence
  let curve ← energyCurve? fields
  .ok (setIf sequence "energyCurve" curve)

/-- A whole document of a form, empty when none was submitted. -/
def document (fields : FormFields) (name : String) : Except BlockError Document :=
  match fields.value? name with
  | none => .ok Document.empty
  | some text =>
      match Document.read text with
      | .ok d => .ok d
      | .error cause => .error (.invalidRules cause)

/-- Read a form. -/
def read (fields : FormFields) : Except BlockError Submission := do
  match fields.value? "name" with
  | none => .error (.invalidForm "name" "required")
  | some name =>
      let rules ← document fields "rules"
      let sequence ← document fields "sequence"
      let rules ← overlayFilters fields rules
      let rules ← overlaySeparation fields rules
      let rules ← overlayBreaks fields rules
      let sequence ← overlaySequence fields sequence
      .ok ⟨name, (fields.value? "description").getD "", rules, sequence⟩

end Submission

end Rundown
