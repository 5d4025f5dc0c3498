import Rundown.Sequence.Build

/-!
# The times of a run

A run adds and subtracts times in a few places: a track that is tried is added to the
total, a candidate that is admissible is scored, and the finished block is summed up
and trimmed.  This file lists these times in the order in which the run forms them.
The lists follow the recursions of the run.

A block is built on integers.  Its run breaks off with the first time that does not
fit into 64 bits, and so do the parts of a run that are asked for by themselves.
-/

namespace Rundown

/-! ## One track at one state -/

/-- The times from which the closeness of a candidate is computed. -/
def Score.closenessTimes (target total duration : Int) : List Time :=
  let sum := total + duration
  let miss := target - sum
  [.sum total duration, .difference target sum, .distance miss, .difference target miss.natAbs]

namespace State

/-- The total with one more track. -/
def totalWith (s : State) (t : Track) : Time :=
  .sum s.total t.duration

/-- The times that say by how much a track comes too early on one attribute.  What is
missing of the gap is formed even where nothing is missing. -/
def shortfallTimes (s : State) (t : Track) (a : Attribute) (gap : Int) : List Time :=
  match (a.key? t).bind fun key => s.lastPlayed.get? (a, key) with
  | some last => [.difference s.total last, .difference gap (s.total - last)]
  | none => []

/-- The times that say by how much a track violates the separation. -/
def violationTimes (s : State) (plan : Plan) (t : Track) : List Time :=
  if plan.separationEnabled then
    plan.separation.flatMap fun (a, gap) => s.shortfallTimes t a gap
  else []

/-- The times of the scores of a candidate. -/
def scoreTimes (s : State) (plan : Plan) (t : Track) : List Time :=
  s.violationTimes plan t ++ Score.closenessTimes plan.target s.total t.duration

end State

/-! ## The trials of a run -/

/-- A track is tried at a state of the block. -/
structure Trial where
  state : State
  track : Track
  /-- The total with the track is compared with the upper bound. -/
  measured : Bool
  /-- The track is admissible music and gets its scores. -/
  scored : Bool

namespace Trial

/-- The total with the track, where it is compared with the upper bound. -/
def sums (x : Trial) : List Time :=
  if x.measured then [x.state.totalWith x.track] else []

/-- All times of a trial. -/
def times (plan : Plan) (x : Trial) : List Time :=
  x.sums ++ if x.scored then x.state.scoreTimes plan x.track else []

end Trial

/-- Each candidate is tried, the first one without regard to the bound, and the
admissible ones are scored. -/
def State.trials (r : Reckoning) (s : State) (plan : Plan) (window : Nat)
    (candidates : List Candidate) : List Trial :=
  let limits : Limits := ⟨window, 1 < candidates.length⟩
  candidates.map fun c =>
    ⟨s, c.track, !s.placements.isEmpty, s.admits r plan limits c.track⟩

namespace Filling

variable (f : Filling) (fromFallback : Bool)

/-- The run with the chosen candidate in place, before a break. -/
def placed (run : Run) (chosen : Scored) (used : Nat) : Run :=
  let noted := { run.state with relaxed := run.state.relaxed || chosen.violation != 0 }
  ⟨noted.placeMusic f.reckoning f.plan chosen.candidate.track fromFallback, run.turn, used⟩

/-- The interstitials that `offer` tries. -/
def offerTrials : Nat → Run → List Trial
  | 0, _ => []
  | count + 1, run =>
      match f.ads[run.turn % f.ads.length]? with
      | none => []
      | some ad => ⟨run.state, ad, true, false⟩ :: offerTrials count (f.offer fromFallback 1 run)

/-- The interstitials that are tried in a break, if one is due. -/
def breakTrials (run : Run) : List Trial :=
  if f.breakDue run.state then f.offerTrials fromFallback f.plan.breaks.perBreak run else []

/-- What a pass tries. -/
def passTrials (window : Nat) : Nat → List Candidate → Run → List Trial
  | 0, _, _ => []
  | steps + 1, candidates, run =>
      if run.state.total < f.plan.lowerBound then
        run.state.trials f.reckoning f.plan window candidates ++
          match run.state.choose f.reckoning f.plan window f.coins run.coinsUsed candidates with
          | (none, _) => []
          | (some chosen, used) =>
              f.breakTrials fromFallback (f.placed fromFallback run chosen used) ++
                passTrials window steps
                  (candidates.filter (·.index != chosen.candidate.index))
                  (f.take fromFallback run chosen used)
      else []

/-- What all passes over a pool try. -/
def passesTrials (window : Nat) (pool : List Track) : Nat → Run → List Trial
  | 0, _ => []
  | count + 1, run =>
      let (after, left) := f.pass fromFallback window pool.length (candidates pool) run
      f.passTrials fromFallback window pool.length (candidates pool) run ++
        if left.length = pool.length || f.plan.lowerBound ≤ after.state.total then []
        else passesTrials window pool count after

/-- What is tried until the block is filled. -/
def trials (pools : Pools) : List Trial :=
  let own := f.primary pools.music f.start
  f.passesTrials false (f.windowOf pools.music) pools.music
      (if f.plan.allowRepeats then greatestPasses else 1) f.start ++
    if own.state.total < f.plan.lowerBound then
      f.passesTrials true (f.windowOf pools.fallback) pools.fallback 1 own
    else []

end Filling

/-! ## The finished block -/

/-- The total with each placement, after a given offset. -/
def Placement.totalsFrom (start : Int) : List Placement → List Time
  | [] => []
  | p :: rest =>
      .sum start p.track.duration :: totalsFrom (start + p.track.duration) rest

namespace Trim

/-- The times of the removals that come into question. -/
def removalTimes (total target : Int) (before : Option Placement) : List Placement → List Time
  | [] => []
  | p :: rest =>
      let later := removalTimes total target (some p) rest
      if p.isAd || joinsRepeats before rest.head? then later
      else
        let left := total - p.track.duration
        [.difference total p.track.duration, .difference left target, .distance (left - target)] ++
          later

/-- The times of a trim. -/
def times (target : Int) (placements : List Placement) : List Time :=
  let total := Placement.total .exact placements
  Placement.totalsFrom 0 placements ++ .difference total target ::
    if total - target ≤ 0 || (Placement.music placements).length ≤ 1 then []
    else removalTimes total target none placements

end Trim

namespace Sequence

/-- The times of finishing a block: those of the trim, and the offsets of what is left. -/
def finishTimes (plan : Plan) (s : State) : List Time :=
  Trim.times plan.target s.placements ++
    Placement.totalsFrom 0 (Trim.overshoot .exact plan.target s.placements).1

/-- All times of a block, from the first trial to the finished result. -/
def times (plan : Plan) (pools : Pools) (coins : Coins) : List Time :=
  let f : Filling := ⟨.exact, plan, pools.ads, coins⟩
  (f.trials pools).flatMap (Trial.times plan) ++ finishTimes plan (filled f pools).state

/-- The run of a block: the block of a plan from its pools, with the number of coins
used, unless a time overflows. -/
def tryBuild (plan : Plan) (pools : Pools) (coins : Coins) :
    Except Overflow (Sequence × Nat) :=
  Overflow.guard (times plan pools coins) (build .exact plan pools coins)

/-- A run that ends has formed no time out of range and built the block on integers. -/
theorem tryBuild_eq_ok_iff {plan : Plan} {pools : Pools} {coins : Coins} {b : Sequence × Nat} :
    tryBuild plan pools coins = .ok b ↔
      Time.AllFit (times plan pools coins) ∧ build .exact plan pools coins = b :=
  Overflow.guard_eq_ok_iff

end Sequence

/-! ## Parts of a run by themselves -/

/-- The closeness of a candidate, unless a time overflows. -/
def Score.tryCloseness (target total duration : Int) : Except Overflow Int :=
  Overflow.guard (closenessTimes target total duration) (closeness .exact target total duration)

namespace State

/-- Whether an interstitial fits, unless the total with it overflows. -/
def tryAdFits (s : State) (plan : Plan) (t : Track) : Except Overflow Bool :=
  Overflow.guard [s.totalWith t] (s.adFits .exact plan t)

/-- Whether music fits, unless the total with it overflows. -/
def tryFits (s : State) (plan : Plan) (t : Track) : Except Overflow Bool :=
  Overflow.guard (Trial.sums ⟨s, t, !s.placements.isEmpty, false⟩) (s.fits .exact plan t)

/-- By how much a track violates the separation, unless a time overflows. -/
def tryViolation (s : State) (plan : Plan) (t : Track) : Except Overflow Int :=
  Overflow.guard (s.violationTimes plan t) (s.violation .exact plan t)

/-- Append music, unless the total with it overflows. -/
def tryPlaceMusic (s : State) (plan : Plan) (t : Track) (fromFallback : Bool) :
    Except Overflow State :=
  Overflow.guard [s.totalWith t] (s.placeMusic .exact plan t fromFallback)

/-- Append an interstitial, unless the total with it overflows. -/
def tryPlaceAd (s : State) (t : Track) (fromFallback : Bool) : Except Overflow State :=
  Overflow.guard [s.totalWith t] (s.placeAd .exact t fromFallback)

end State

/-- The trim of an overshoot, unless a time overflows. -/
def Trim.tryOvershoot (target : Int) (placements : List Placement) :
    Except Overflow (List Placement × Option Placement) :=
  Overflow.guard (times target placements) (overshoot .exact target placements)

/-- Placements laid out, unless an offset overflows. -/
def Placement.tryLayOut (placements : List Placement) : Except Overflow (List Placement) :=
  Overflow.guard (totalsFrom 0 placements) (layOut .exact placements)

end Rundown
