import Mathlib.Data.List.Nodup
import Rundown.Proofs.Finish
import Rundown.Proofs.Lockstep

/-!
# What repeating the pool adds

Permission to go through the pool again changes nothing while the pool is gone
through for the first time: the recency window refuses only what was placed
before, and no track of the pool was.  So the first pass is the same turn by
turn, coin by coin, and all that further passes do is append.  When the block is
full after the first pass, the permission makes no difference at all.

The tracks of the pool are taken to have different ids; a track that the pool
holds twice could be refused for being recent in the first pass already.
-/

namespace Rundown

/-- None of the candidates was placed yet. -/
def State.Unplayed (s : State) (offered : List Candidate) : Prop :=
  ∀ c ∈ offered, s.ordinals.get? c.track.id = none

namespace State

variable {r : Reckoning} {s : State} {plan : Plan} {offered : List Candidate}

/-- No window refuses what was never played. -/
theorem admits_of_unplayed (h : s.Unplayed offered) {c : Candidate} (hc : c ∈ offered)
    (window : Nat) (noRepeat allowed : Bool) :
    s.admits r (plan.withRepeats allowed) ⟨window, noRepeat⟩ c.track =
      s.admits r plan ⟨0, noRepeat⟩ c.track := by
  have hrecent : ∀ n, s.isRecent n c.track = false := by
    intro n
    unfold isRecent
    rw [h c hc]
  have hquota : s.exceedsQuota (plan.withRepeats allowed) c.track = s.exceedsQuota plan c.track :=
    rfl
  have hfits : s.fits r (plan.withRepeats allowed) c.track = s.fits r plan c.track := rfl
  simp only [admits, hrecent, hquota, hfits, Bool.and_false, Bool.not_false]

/-- The first time through the choice is the same, coins included. -/
theorem choose_of_unplayed (h : s.Unplayed offered) (window : Nat) (allowed : Bool)
    (coins : Coins) (used : Nat) :
    s.choose r (plan.withRepeats allowed) window coins used offered =
      s.choose r plan 0 coins used offered := by
  have hadmitted : (offered.filter fun c => s.admits r (plan.withRepeats allowed)
        ⟨window, 1 < offered.length⟩ c.track) =
      offered.filter fun c => s.admits r plan ⟨0, 1 < offered.length⟩ c.track :=
    List.filter_congr fun c hc => admits_of_unplayed h hc ..
  unfold choose
  simp only [hadmitted]
  rfl

end State

namespace Filling

variable (f : Filling) {fromFallback : Bool}

/-! ## The first pass -/

/-- A turn leaves what is not its own track unplayed. -/
theorem unplayed_take {run : Run} {offered : List Candidate} {chosen : Scored} (used : Nat)
    (h : run.state.Unplayed offered) (hchosen : chosen.candidate ∈ offered)
    (hids : (offered.map (·.track.id)).Nodup) :
    (f.take fromFallback run chosen used).state.Unplayed
      (offered.filter (·.index != chosen.candidate.index)) := by
  have hordinals : (f.take fromFallback run chosen used).state.ordinals =
      run.state.ordinals.put chosen.candidate.track.id (run.state.musicCount + 1) := by
    apply takeBreak_invariant fromFallback (P := fun s => s.ordinals = _)
    · intro s t hs _ _
      exact hs
    · rfl
  intro c hc
  obtain ⟨hoffered, hother⟩ := List.mem_filter.mp hc
  have hid : ¬ chosen.candidate.track.id = c.track.id := by
    intro hsame
    have heq : chosen.candidate = c := List.inj_on_of_nodup_map hids hchosen hoffered hsame
    rw [heq] at hother
    simp at hother
  rw [hordinals, Table.get?_put, if_neg hid]
  exact h c hoffered

/-- The first time through the pool a pass is the same with a window and without. -/
theorem pass_of_unplayed (allowed : Bool) (window steps : Nat) {offered : List Candidate}
    {run : Run} (h : run.state.Unplayed offered) (hids : (offered.map (·.track.id)).Nodup) :
    (f.under allowed f.coins).pass fromFallback window steps offered run =
      f.pass fromFallback 0 steps offered run := by
  induction steps generalizing offered run with
  | zero => rfl
  | succ steps ih =>
      have hchoose : run.state.choose f.reckoning (f.plan.withRepeats allowed) window f.coins
            run.coinsUsed offered =
          run.state.choose f.reckoning f.plan 0 f.coins run.coinsUsed offered :=
        State.choose_of_unplayed h ..
      by_cases hshort : run.state.total < f.plan.lowerBound
      · rcases hturn : run.state.choose f.reckoning f.plan 0 f.coins run.coinsUsed offered with
          ⟨_ | chosen, used⟩
        · rw [f.pass_of_none fromFallback hshort hturn]
          exact (f.under allowed f.coins).pass_of_none fromFallback hshort (hchoose.trans hturn)
        · have hchosen := State.candidate_mem_of_choose hturn
          rw [f.pass_of_some fromFallback hshort hturn,
            (f.under allowed f.coins).pass_of_some fromFallback hshort (hchoose.trans hturn),
            take_under]
          -- The track that was placed is no longer offered, so no id is met twice.
          apply ih
          · exact f.unplayed_take used h hchosen hids
          · exact hids.sublist (List.filter_sublist.map _)
      · rw [f.pass_of_full fromFallback hshort]
        exact (f.under allowed f.coins).pass_of_full fromFallback hshort

theorem unplayed_start (offered : List Candidate) : f.start.state.Unplayed offered := by
  intro _ _
  rfl

/-! ## The own phase -/

/-- The first time through the pool, without a window. -/
def firstPass (pool : List Track) : Run × List Candidate :=
  f.pass false 0 pool.length (candidates pool) f.start

section OwnPhase

variable {pool : List Track} (hids : (pool.map (·.id)).Nodup)

include hids

theorem pass_start (allowed : Bool) (window : Nat) :
    (f.under allowed f.coins).pass false window pool.length (candidates pool) f.start =
      f.firstPass pool := by
  have hcandidates : ((candidates pool).map (·.track.id)).Nodup := by
    rw [← map_track_candidates pool, List.map_map] at hids
    exact hids
  exact f.pass_of_unplayed allowed window _ (f.unplayed_start _) hcandidates

/-- Without repeats the own phase is the first pass. -/
theorem primary_once : (f.under false f.coins).primary pool f.start = (f.firstPass pool).1 := by
  change (f.under false f.coins).passes false 0 pool 1 f.start = _
  simp only [passes, ite_self]
  rw [f.pass_start hids false 0]

/-- With repeats it is the first pass, when that placed nothing or filled the
block, and goes on from there otherwise. -/
theorem primary_repeated :
    (f.under true f.coins).primary pool f.start =
      if (f.firstPass pool).2.length = pool.length ||
          f.plan.lowerBound ≤ (f.firstPass pool).1.state.total
      then (f.firstPass pool).1
      else (f.under true f.coins).passes false ((f.under true f.coins).windowOf pool) pool 99
        (f.firstPass pool).1 := by
  change (f.under true f.coins).passes false _ pool 100 f.start = _
  rw [passes, f.pass_start hids true]
  rfl

theorem prefix_primary :
    ((f.under false f.coins).primary pool f.start).state.placements <+:
      ((f.under true f.coins).primary pool f.start).state.placements := by
  rw [f.primary_once hids, f.primary_repeated hids]
  split
  · exact List.prefix_refl _
  · obtain ⟨more, hmore, _⟩ :=
      (f.under true f.coins).exists_append_passes false pool 99 (f.firstPass pool).1
    rw [hmore]
    exact List.prefix_append _ _

theorem primary_eq_of_full
    (hfull : f.plan.lowerBound ≤ ((f.under false f.coins).primary pool f.start).state.total) :
    (f.under true f.coins).primary pool f.start = (f.under false f.coins).primary pool f.start := by
  rw [f.primary_once hids] at hfull ⊢
  rw [f.primary_repeated hids, if_pos (by simp [hfull])]

end OwnPhase

end Filling

namespace Sequence

/-- The block after the own phase, before any fallback. -/
def ownPhase (r : Reckoning) (plan : Plan) (pools : Pools) (coins : Coins) : Run :=
  let f : Filling := ⟨r, plan, pools.ads, coins⟩
  f.primary pools.music f.start

/-- A block that its own phase fills is finished as that phase leaves it. -/
theorem build_of_full {r : Reckoning} {plan : Plan} {pools : Pools} {coins : Coins}
    (hfull : plan.lowerBound ≤ (ownPhase r plan pools coins).state.total) :
    build r plan pools coins =
      (finish r plan (ownPhase r plan pools coins).state,
        (ownPhase r plan pools coins).coinsUsed) := by
  have hfilled : filled ⟨r, plan, pools.ads, coins⟩ pools = ownPhase r plan pools coins :=
    if_neg (not_lt.mpr hfull)
  unfold build
  rw [hfilled]

/-- When every track of the pool has an id of its own, what the own phase places
with repeats begins with what it places without them, and if the block is full
without them, they change nothing at all. -/
theorem build_withRepeats (r : Reckoning) (plan : Plan) (pools : Pools) (coins : Coins)
    (hids : (pools.music.map (·.id)).Nodup) :
    (ownPhase r (plan.withRepeats false) pools coins).state.placements <+:
        (ownPhase r (plan.withRepeats true) pools coins).state.placements ∧
      (plan.lowerBound ≤ (ownPhase r (plan.withRepeats false) pools coins).state.total →
        build r (plan.withRepeats true) pools coins =
          build r (plan.withRepeats false) pools coins) := by
  let f : Filling := ⟨r, plan, pools.ads, coins⟩
  refine ⟨f.prefix_primary hids, ?_⟩
  intro hfull
  have hsame : ownPhase r (plan.withRepeats true) pools coins =
      ownPhase r (plan.withRepeats false) pools coins := f.primary_eq_of_full hids hfull
  have hfull' : plan.lowerBound ≤ (ownPhase r (plan.withRepeats true) pools coins).state.total := by
    rw [hsame]
    exact hfull
  rw [build_of_full hfull, build_of_full hfull', hsame]
  rfl

/-- The three songs of the sample fill their block in one pass. -/
theorem build_withRepeats_sample :
    (Sample.pools.music.map (·.id)).Nodup ∧
      Sample.plan.lowerBound ≤
        (ownPhase .exact (Sample.plan.withRepeats false) Sample.pools Sample.coins).state.total ∧
      (ownPhase .exact (Sample.plan.withRepeats false) Sample.pools Sample.coins).state.placements <+:
        (ownPhase .exact (Sample.plan.withRepeats true) Sample.pools
          Sample.coins).state.placements ∧
      build .exact (Sample.plan.withRepeats true) Sample.pools Sample.coins =
        build .exact (Sample.plan.withRepeats false) Sample.pools Sample.coins := by
  have hids : (Sample.pools.music.map (·.id)).Nodup := by decide
  have hfull : Sample.plan.lowerBound ≤
      (ownPhase .exact (Sample.plan.withRepeats false) Sample.pools Sample.coins).state.total := by
    decide +kernel
  obtain ⟨hbegins, hsame⟩ := build_withRepeats .exact Sample.plan Sample.pools Sample.coins hids
  exact ⟨hids, hfull, hbegins, hsame hfull⟩

end Sequence

end Rundown
