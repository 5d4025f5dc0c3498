import Rundown.Json.Basic
import Rundown.Schedule.Basic

/-!
# Schedules as records

How an entry of a schedule is stored, under an identity of its own.
-/

namespace Rundown

/-- The record of an entry. -/
def ScheduleEntry.toJson (e : ScheduleEntry) (id : String) : Json :=
  .obj
    [("id", .str id), ("media_id", .str e.media), ("starts_at", .str e.startsAt.text),
      ("ends_at", .str e.endsAt.text), ("is_ad", .bool e.isAd),
      ("energy", Json.ofOption .real e.energy)]

end Rundown
