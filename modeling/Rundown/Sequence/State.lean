import Rundown.Plan.Basic
import Rundown.Sequence.Placement
import Rundown.Table

/-!
# The state of a block under construction

The placements so far with a running summary of them: the total, the counts by
which quotas are judged, and when each key and each track was last placed.  The
questions at the end are what a candidate is judged by.
-/

namespace Rundown

/-- The placements so far and what is remembered of them. -/
structure State where
  placements : List Placement
  total : Int
  musicCount : Nat
  /-- Music placements by which shares are judged. -/
  quotaTotal : Nat
  /-- Music placements that each quota covers, in the order of the plan. -/
  quotaCounts : List Nat
  /-- The total at which a key of an attribute was last placed. -/
  lastPlayed : Table (Attribute × String) Int
  lastTrack : Option String
  /-- The number, from one, of the latest music placement of a track. -/
  ordinals : Table String Nat
  /-- Some track was taken in spite of the separation. -/
  relaxed : Bool
  deriving Inhabited

namespace State

/-- Nothing is placed. -/
def start (plan : Plan) : State :=
  ⟨[], 0, 0, 0, plan.quotas.map fun _ => 0, [], none, [], false⟩

/-- Append a placement; only the total changes with it. -/
def push (r : Reckoning) (s : State) (t : Track) (isAd fromFallback : Bool) : State :=
  let finish := r.hold (s.total + t.duration)
  { s with
    placements := s.placements ++ [⟨t, isAd, fromFallback, s.total, finish⟩]
    total := finish }

/-- Append an interstitial. -/
def placeAd (r : Reckoning) (s : State) (t : Track) (fromFallback : Bool) : State :=
  s.push r t true fromFallback

/-- Note that the keys of a track were placed at a total. -/
def noteKeys (fields : List Attribute) (t : Track) (moment : Int)
    (played : Table (Attribute × String) Int) : Table (Attribute × String) Int :=
  fields.foldl (fun table a =>
    match a.key? t with
    | some key => table.put (a, key) moment
    | none => table) played

/-- Count a track toward the quotas that cover it. -/
def countQuotas (t : Track) : List Quota → List Nat → List Nat
  | q :: quotas, n :: counts => (if q.covers t then n + 1 else n) :: countQuotas t quotas counts
  | _, counts => counts

/-- Append music and update all that is remembered. -/
def placeMusic (r : Reckoning) (s : State) (plan : Plan) (t : Track) (fromFallback : Bool) :
    State :=
  push r
    { s with
      lastPlayed := noteKeys (plan.separation.map (·.1)) t s.total s.lastPlayed
      quotaCounts := countQuotas t plan.quotas s.quotaCounts
      musicCount := s.musicCount + 1
      quotaTotal := s.quotaTotal + 1
      ordinals := s.ordinals.put t.id (s.musicCount + 1)
      lastTrack := some t.id }
    t false fromFallback

/-- An interstitial fits when the total stays within the upper bound. -/
def adFits (r : Reckoning) (s : State) (plan : Plan) (t : Track) : Bool :=
  r.hold (s.total + t.duration) ≤ plan.upperBound

/-- Music fits when the total stays within the upper bound, and always as the
first placement. -/
def fits (r : Reckoning) (s : State) (plan : Plan) (t : Track) : Bool :=
  s.placements.isEmpty || s.adFits r plan t

/-- The track was the latest music placement. -/
def isImmediateRepeat (s : State) (t : Track) : Bool :=
  s.lastTrack == some t.id

/-- The track is among the latest `window` music placements. -/
def isRecent (s : State) (window : Nat) (t : Track) : Bool :=
  match s.ordinals.get? t.id with
  | some ordinal => s.musicCount - ordinal < window
  | none => false

/-- A part of a whole in percent. -/
def percent (part whole : Nat) : Float :=
  Decimal.ofInt part / Decimal.ofInt whole * 100

/-- A quota that covers the track has reached its greatest share. -/
def exceedsQuota (s : State) (plan : Plan) (t : Track) : Bool :=
  s.quotaTotal != 0 &&
    (plan.quotas.zip s.quotaCounts).any fun (q, count) =>
      match q.maxShare with
      | some share => share ≤ percent count s.quotaTotal && q.covers t
      | none => false

/-- By how much the track comes too early after its key on one attribute. -/
def shortfall? (r : Reckoning) (s : State) (t : Track) (a : Attribute) (gap : Int) :
    Option Int :=
  match (a.key? t).bind fun key => s.lastPlayed.get? (a, key) with
  | some last =>
      let elapsed := r.hold (s.total - last)
      if elapsed < gap then some (r.hold (gap - elapsed)) else none
  | none => none

/-- The greatest of some times, zero when there are none. -/
def worst : List Int → Int
  | [] => 0
  | n :: rest => rest.foldl max n

/-- By how much the track violates the separation at worst; zero when it does not. -/
def violation (r : Reckoning) (s : State) (plan : Plan) (t : Track) : Int :=
  if plan.separationEnabled then
    worst (plan.separation.filterMap fun (a, gap) => s.shortfall? r t a gap)
  else 0

end State

end Rundown
