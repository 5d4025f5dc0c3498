import Rundown.Schedule.Moment
import Rundown.Sequence.Build

/-!
# Schedules

A sequence becomes a schedule when its start is fixed: each placement becomes an
entry with the moments at which it starts and ends.
-/

namespace Rundown

/-- A placement at its time. -/
structure ScheduleEntry where
  media : String
  startsAt : Moment
  endsAt : Moment
  isAd : Bool
  /-- The energy of the tempo, for music only. -/
  energy : Option Float
  deriving Inhabited

/-- The entry of a placement in a sequence that starts at a moment. -/
def ScheduleEntry.ofPlacement (start : Moment) (p : Placement) : ScheduleEntry where
  media := p.track.id
  startsAt := start.after p.startsAt
  endsAt := start.after p.endsAt
  isAd := p.isAd
  energy := if p.isAd then none else some (Score.energyOfTempo p.track.bpm)

/-- The schedule of a sequence that starts at a moment. -/
def Sequence.schedule (s : Sequence) (start : Moment) : List ScheduleEntry :=
  s.placements.map (ScheduleEntry.ofPlacement start)

end Rundown
