import Rundown.Sequence.Choice

/-!
# Filling a block from a pool

A pass takes candidates one after the other until the total reaches the lower
bound or no candidate is admissible; nothing is taken twice in one pass.  Passes
follow one another as long as each places something and the block is not full.
After every so many music placements a break offers the next interstitials of
the round, and those that fit are placed.
-/

namespace Rundown

/-- A block under construction, the turn of the interstitials, and the number of
coins used so far. -/
structure Run where
  state : State
  /-- The interstitial whose turn it is. -/
  turn : Nat
  coinsUsed : Nat
  deriving Inhabited

/-- What stays the same while a block is filled. -/
structure Filling where
  reckoning : Reckoning
  plan : Plan
  ads : List Track
  coins : Coins

namespace Filling

variable (f : Filling)

/-- Nothing is placed and no coin is used. -/
def start : Run :=
  ⟨State.start f.plan, 0, 0⟩

/-- Offer the next `count` interstitials in turn.  The turn passes on whether or
not the interstitial fits. -/
def offer (fromFallback : Bool) : Nat → Run → Run
  | 0, run => run
  | count + 1, run =>
      match f.ads[run.turn % f.ads.length]? with
      | none => run
      | some ad =>
          let state :=
            if run.state.adFits f.reckoning f.plan ad then
              run.state.placeAd f.reckoning ad fromFallback
            else run.state
          offer fromFallback count ⟨state, (run.turn + 1) % f.ads.length, run.coinsUsed⟩

/-- A break is due after the latest music placement. -/
def breakDue (s : State) : Bool :=
  f.plan.breaks.enabled && !f.ads.isEmpty && s.musicCount % f.plan.breaks.every == 0

/-- Hold a break when one is due. -/
def takeBreak (fromFallback : Bool) (run : Run) : Run :=
  if f.breakDue run.state then f.offer fromFallback f.plan.breaks.perBreak run else run

/-- Place the chosen candidate and hold the break that may follow it. -/
def take (fromFallback : Bool) (run : Run) (chosen : Scored) (used : Nat) : Run :=
  let noted := { run.state with relaxed := run.state.relaxed || chosen.violation != 0 }
  let placed := noted.placeMusic f.reckoning f.plan chosen.candidate.track fromFallback
  f.takeBreak fromFallback ⟨placed, run.turn, used⟩

/-- One pass over the candidates, of at most `steps` placements.  The second part
of the result holds the candidates that were not taken. -/
def pass (fromFallback : Bool) (window : Nat) :
    Nat → List Candidate → Run → Run × List Candidate
  | 0, candidates, run => (run, candidates)
  | steps + 1, candidates, run =>
      if run.state.total < f.plan.lowerBound then
        match run.state.choose f.reckoning f.plan window f.coins run.coinsUsed candidates with
        | (none, used) => ({ run with coinsUsed := used }, candidates)
        | (some chosen, used) =>
            pass fromFallback window steps
              (candidates.filter (·.index != chosen.candidate.index))
              (f.take fromFallback run chosen used)
      else (run, candidates)

/-- The candidates of a pool that is not used yet. -/
def candidates (pool : List Track) : List Candidate :=
  pool.mapIdx fun index track => ⟨index, track⟩

/-- At most so many passes over a pool, ending when the block is full or a pass
places nothing. -/
def passes (fromFallback : Bool) (window : Nat) (pool : List Track) : Nat → Run → Run
  | 0, run => run
  | count + 1, run =>
      let (after, left) := f.pass fromFallback window pool.length (candidates pool) run
      if left.length = pool.length || f.plan.lowerBound ≤ after.state.total then after
      else passes fromFallback window pool count after

/-- The most passes over a pool that may be repeated. -/
def greatestPasses : Nat := 100

/-- The most music placements within which a track may not come again. -/
def greatestWindow : Nat := 3

/-- The recency window for a pool: half of it, at most three, when repeats are
allowed, and none when they are not. -/
def windowOf (pool : List Track) : Nat :=
  if f.plan.allowRepeats then min greatestWindow (pool.length / 2) else 0

/-- Fill from the block's own pool, again and again when repeats are allowed. -/
def primary (pool : List Track) (run : Run) : Run :=
  f.passes false (f.windowOf pool) pool (if f.plan.allowRepeats then greatestPasses else 1) run

/-- Fill from the pool of the fallbacks, once. -/
def fallback (pool : List Track) (run : Run) : Run :=
  f.passes true (f.windowOf pool) pool 1 run

end Filling

end Rundown
