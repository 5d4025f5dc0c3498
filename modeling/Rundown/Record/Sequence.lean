import Rundown.Record.Track
import Rundown.Sequence.Build

/-!
# Sequences as records

How a sequence with its placements and warnings is stored.  A warning is told by
its kind.
-/

namespace Rundown

/-- The fields of a placement in their standing order. -/
def Placement.fields : Json.Fields :=
  (["track"], Track.shape) ::
    Json.plainFields ["is_ad", "from_fallback", "starts_at_ms", "ends_at_ms"]

/-- The placement of a stored record. -/
def Placement.ofJson? (value : Json) : Option Placement := do
  match ← Json.fields? fields value with
  | [track, isAd, fromFallback, startsAt, endsAt] =>
      some
        { track := ← Json.required Track.ofJson? track
          isAd := ← Json.required Json.bool? isAd
          fromFallback := ← Json.withDefault Json.bool? false fromFallback
          startsAt := ← Json.required Json.word? startsAt
          endsAt := ← Json.required Json.word? endsAt }
  | _ => none

/-- The record of a placement. -/
def Placement.toJson (p : Placement) : Json :=
  .obj
    [("track", p.track.toJson), ("is_ad", .bool p.isAd), ("from_fallback", .bool p.fromFallback),
      ("starts_at_ms", .int p.startsAt), ("ends_at_ms", .int p.endsAt)]

namespace Warning

/-- The kind of a record that is told by its kind, and the rest of the record. -/
def splitKind? : Json → Option (Json × Json)
  | .arr (kind :: rest) => some (kind, .arr rest)
  | .obj members =>
      match Json.only? ["kind"] members with
      | some (some kind) => some (kind, .obj (Json.erase members "kind"))
      | _ => none
  | _ => none

/-- The warning of a stored record. -/
def ofJson? (value : Json) : Option Warning := do
  let (kind, rest) ← splitKind? value
  match ← kind.text? with
  | "underfilled" =>
      match ← Json.fields? (Json.plainFields ["total_ms", "lower_bound_ms"]) rest with
      | [total, lowerBound] =>
          some (.underfilled (← Json.required Json.word? total)
            (← Json.required Json.word? lowerBound))
      | _ => none
  | "used_fallback" => (Json.fields? [] rest).map fun _ => .usedFallback
  | "quota_minimum_unmet" =>
      match ← Json.fields? (Json.plainFields ["field", "value", "share_pct", "min_pct"]) rest with
      | [field, wanted, share, least] =>
          some (.quotaUnmet (← Json.required Json.text? field) (← Json.required Json.text? wanted)
            (← Json.required Json.float? share) (← Json.required Json.float? least))
      | _ => none
  | "separation_relaxed" => (Json.fields? [] rest).map fun _ => .separationRelaxed
  | "trimmed" =>
      match ← Json.fields? (Json.plainFields ["removed_track_id"]) rest with
      | [track] => some (.trimmed (← Json.required Json.text? track))
      | _ => none
  | _ => none

/-- The record of a warning. -/
def toJson : Warning → Json
  | .underfilled total lowerBound =>
      .obj [("kind", .str "underfilled"), ("total_ms", .int total),
        ("lower_bound_ms", .int lowerBound)]
  | .usedFallback => .obj [("kind", .str "used_fallback")]
  | .quotaUnmet field value share least =>
      .obj [("kind", .str "quota_minimum_unmet"), ("field", .str field), ("value", .str value),
        ("share_pct", .real share), ("min_pct", .real least)]
  | .separationRelaxed => .obj [("kind", .str "separation_relaxed")]
  | .trimmed track => .obj [("kind", .str "trimmed"), ("removed_track_id", .str track)]

end Warning

namespace Sequence

/-- The fields in their standing order.  Warnings are read in full, since their
kind may stand last. -/
def fields : Json.Fields :=
  (["placements"], .list (.record Placement.fields)) :: Json.plainFields ["total_ms", "warnings"]

/-- The sequence of a stored record. -/
def ofJson? (value : Json) : Option Sequence := do
  match ← Json.fields? fields value with
  | [placements, total, warnings] =>
      some
        { placements := ← Json.required (Json.listOf? Placement.ofJson?) placements
          total := ← Json.required Json.word? total
          warnings := ← Json.withDefault (Json.listOf? Warning.ofJson?) [] warnings }
  | _ => none

/-- The sequence of a stored text. -/
def read? (s : String) : Option Sequence :=
  (Json.readAs? (.record fields) s).bind ofJson?

/-- The record of a sequence. -/
def toJson (s : Sequence) : Json :=
  .obj
    [("placements", .arr (s.placements.map Placement.toJson)), ("total_ms", .int s.total),
      ("warnings", .arr (s.warnings.map Warning.toJson))]

end Sequence

end Rundown
