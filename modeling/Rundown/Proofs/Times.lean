import Rundown.Proofs.Finish
import Rundown.Proofs.Turns
import Rundown.Sequence.Times

/-!
# The listed times are all that matters

A reckoning that keeps the times that are listed for a run fills and finishes the
same block as the integers do.  So nothing that matters for the result is missing
from the list, whatever becomes of a time that is not kept.

How large the listed times can get is not said here.
-/

namespace Rundown

/-- A reckoning keeps these times as they are. -/
def Reckoning.Keeps (r : Reckoning) (times : List Time) : Prop :=
  ∀ t ∈ times, r.hold t.value = t.value

/-! ## One track at one state -/

theorem Score.closeness_of_keeps {r : Reckoning} {target total duration : Int}
    (h : r.Keeps (closenessTimes target total duration)) :
    closeness r target total duration = closeness .exact target total duration := by
  have hkept : ∀ t ∈ closenessTimes target total duration, r.hold t.value = t.value := h
  simp only [closenessTimes, List.forall_mem_cons, Time.value_sum, Time.value_difference,
    Time.value_distance] at hkept
  obtain ⟨hsum, hmiss, hdistance, hscore, _⟩ := hkept
  simp only [closeness, hsum, hmiss, hdistance, hscore, Reckoning.hold_exact]

namespace State

variable {r : Reckoning} {s : State} {plan : Plan} {t : Track}

theorem push_of_keeps {isAd fromFallback : Bool}
    (h : r.hold (s.total + t.duration) = s.total + t.duration) :
    s.push r t isAd fromFallback = s.push .exact t isAd fromFallback := by
  simp only [push, h, Reckoning.hold_exact]

theorem placeMusic_of_keeps {fromFallback : Bool}
    (h : r.hold (s.total + t.duration) = s.total + t.duration) :
    s.placeMusic r plan t fromFallback = s.placeMusic .exact plan t fromFallback :=
  push_of_keeps h

theorem adFits_of_keeps (h : r.hold (s.total + t.duration) = s.total + t.duration) :
    s.adFits r plan t = s.adFits .exact plan t := by
  unfold adFits
  rw [h]
  rfl

theorem shortfall?_of_keeps {a : Attribute} {gap : Int} (h : r.Keeps (s.shortfallTimes t a gap)) :
    s.shortfall? r t a gap = s.shortfall? .exact t a gap := by
  unfold shortfallTimes at h
  unfold shortfall?
  cases hlast : (a.key? t).bind fun key => s.lastPlayed.get? (a, key) with
  | none => rfl
  | some last =>
      rw [hlast] at h
      obtain ⟨helapsed, hrest⟩ := List.forall_mem_cons.mp h
      have hmissing := List.forall_mem_singleton.mp hrest
      simp only [Time.value_difference] at helapsed hmissing
      simp only [helapsed, hmissing]
      rfl

theorem violation_of_keeps (h : r.Keeps (s.violationTimes plan t)) :
    s.violation r plan t = s.violation .exact plan t := by
  unfold violation
  by_cases henabled : plan.separationEnabled = true
  · rw [violationTimes, if_pos henabled] at h
    have hshortfalls : plan.separation.filterMap (fun x => s.shortfall? r t x.1 x.2) =
        plan.separation.filterMap fun x => s.shortfall? .exact t x.1 x.2 := by
      apply List.filterMap_congr
      intro x hx
      apply shortfall?_of_keeps
      intro n hn
      exact h n (List.mem_flatMap.mpr ⟨x, hx, hn⟩)
    rw [if_pos henabled, if_pos henabled]
    exact congrArg worst hshortfalls
  · rw [if_neg henabled, if_neg henabled]

theorem score_of_keeps {c : Candidate} (h : r.Keeps (s.scoreTimes plan c.track)) :
    s.score r plan c = s.score .exact plan c := by
  obtain ⟨hviolation, hcloseness⟩ := List.forall_mem_append.mp h
  simp only [score, violation_of_keeps hviolation, Score.closeness_of_keeps hcloseness]

end State

namespace State

variable {r : Reckoning} {s : State} {plan : Plan}

theorem admits_of_keeps {limits : Limits} {t : Track} {scored : Bool}
    (h : r.Keeps (Trial.sums ⟨s, t, !s.placements.isEmpty, scored⟩)) :
    s.admits r plan limits t = s.admits .exact plan limits t := by
  have hfits : s.fits r plan t = s.fits .exact plan t := by
    unfold fits
    cases hempty : s.placements.isEmpty with
    | true => rfl
    | false =>
        rw [hempty] at h
        change r.Keeps [s.totalWith t] at h
        rw [adFits_of_keeps (h _ List.mem_cons_self)]
  simp only [admits, hfits]

/-- The choice depends on nothing but the times of the trials. -/
theorem choose_of_keeps {window used : Nat} {coins : Coins} {candidates : List Candidate}
    (h : ∀ x ∈ s.trials .exact plan window candidates, r.Keeps (x.times plan)) :
    s.choose r plan window coins used candidates =
      s.choose .exact plan window coins used candidates := by
  have htrial := List.forall_mem_map.mp h
  have hadmitted : (candidates.filter fun c =>
        s.admits r plan ⟨window, 1 < candidates.length⟩ c.track) =
      candidates.filter fun c =>
        s.admits .exact plan ⟨window, 1 < candidates.length⟩ c.track := by
    apply List.filter_congr
    intro c hc
    exact admits_of_keeps (List.forall_mem_append.mp (htrial c hc)).1
  have hscored : ((candidates.filter fun c =>
        s.admits .exact plan ⟨window, 1 < candidates.length⟩ c.track).map (s.score r plan)) =
      (candidates.filter fun c =>
        s.admits .exact plan ⟨window, 1 < candidates.length⟩ c.track).map
          (s.score .exact plan) := by
    apply List.map_congr_left
    intro c hc
    obtain ⟨hoffered, hadmits⟩ := List.mem_filter.mp hc
    have hscores := (List.forall_mem_append.mp (htrial c hoffered)).2
    rw [if_pos hadmits] at hscores
    exact score_of_keeps hscores
  unfold choose
  simp only [hadmitted, hscored]

/-- The total with the chosen track is one of the times of its scores. -/
theorem keeps_sum_of_choose {window used after : Nat} {coins : Coins}
    {candidates : List Candidate} {chosen : Scored}
    (h : ∀ x ∈ s.trials .exact plan window candidates, r.Keeps (x.times plan))
    (hchoose : s.choose .exact plan window coins used candidates = (some chosen, after)) :
    r.hold (s.total + chosen.candidate.track.duration) =
      s.total + chosen.candidate.track.duration := by
  obtain ⟨c, hc, hadmits, rfl⟩ := choose_eq_some hchoose
  have hscores := (List.forall_mem_append.mp (List.forall_mem_map.mp h c hc)).2
  rw [if_pos hadmits] at hscores
  exact (List.forall_mem_append.mp hscores).2 _ List.mem_cons_self

end State

/-! ## The trials of a run -/

namespace Filling

variable (f : Filling) (fromFallback : Bool)

/-- The same filling under another reckoning. -/
def reckonedBy (r : Reckoning) : Filling :=
  { f with reckoning := r }

theorem take_eq (run : Run) (chosen : Scored) (used : Nat) :
    f.take fromFallback run chosen used =
      f.takeBreak fromFallback (f.placed fromFallback run chosen used) := rfl

section Keeps

variable {f fromFallback} {r : Reckoning} {run : Run}

/-- One interstitial is offered alike if the total with it is kept. -/
theorem offer_one_reckonedBy (hexact : f.reckoning = .exact)
    (hsum : ∀ ad, f.ads[run.turn % f.ads.length]? = some ad →
      r.hold (run.state.total + ad.duration) = run.state.total + ad.duration) :
    (f.reckonedBy r).offer fromFallback 1 run = f.offer fromFallback 1 run := by
  cases had : f.ads[run.turn % f.ads.length]? with
  | none => simp only [offer, reckonedBy, had]
  | some ad =>
      have hfits : run.state.adFits r f.plan ad = run.state.adFits .exact f.plan ad :=
        State.adFits_of_keeps (hsum ad had)
      have hplaced : run.state.placeAd r ad fromFallback =
          run.state.placeAd .exact ad fromFallback :=
        State.push_of_keeps (hsum ad had)
      simp only [offer, reckonedBy, had, hexact, hfits, hplaced]

theorem offer_of_none (had : f.ads[run.turn % f.ads.length]? = none) (count : Nat) :
    f.offer fromFallback count run = run := by
  cases count with
  | zero => rfl
  | succ count => simp only [offer, had]

theorem offer_of_some {ad : Track} (had : f.ads[run.turn % f.ads.length]? = some ad)
    (count : Nat) :
    f.offer fromFallback (count + 1) run =
      f.offer fromFallback count (f.offer fromFallback 1 run) := by
  simp only [offer, had]

theorem offer_reckonedBy (hexact : f.reckoning = .exact) (count : Nat)
    (h : ∀ x ∈ f.offerTrials fromFallback count run, r.Keeps (x.times f.plan)) :
    (f.reckonedBy r).offer fromFallback count run = f.offer fromFallback count run := by
  induction count generalizing run with
  | zero => rfl
  | succ count ih =>
      rw [offerTrials] at h
      cases had : f.ads[run.turn % f.ads.length]? with
      | none => rw [offer_of_none had, offer_of_none (f := f.reckonedBy r) had]
      | some ad =>
          rw [had] at h
          obtain ⟨hfirst, hlater⟩ := List.forall_mem_cons.mp h
          have hone : (f.reckonedBy r).offer fromFallback 1 run = f.offer fromFallback 1 run := by
            apply offer_one_reckonedBy hexact
            intro other hother
            obtain rfl := Option.some.inj (had.symm.trans hother)
            exact hfirst _ (List.mem_append_left _ List.mem_cons_self)
          rw [offer_of_some had, offer_of_some (f := f.reckonedBy r) had, hone, ih hlater]

theorem takeBreak_reckonedBy (hexact : f.reckoning = .exact)
    (h : ∀ x ∈ f.breakTrials fromFallback run, r.Keeps (x.times f.plan)) :
    (f.reckonedBy r).takeBreak fromFallback run = f.takeBreak fromFallback run := by
  have hsame : (f.reckonedBy r).breakDue run.state = f.breakDue run.state := rfl
  unfold takeBreak
  rw [hsame]
  by_cases hdue : f.breakDue run.state = true
  · rw [breakTrials, if_pos hdue] at h
    rw [if_pos hdue, if_pos hdue]
    exact offer_reckonedBy hexact _ h
  · rw [if_neg hdue, if_neg hdue]

/-- A turn depends on the total with the chosen track and on the trials of the
break after it. -/
theorem take_reckonedBy (hexact : f.reckoning = .exact) {chosen : Scored} {used : Nat}
    (hsum : r.hold (run.state.total + chosen.candidate.track.duration) =
      run.state.total + chosen.candidate.track.duration)
    (h : ∀ x ∈ f.breakTrials fromFallback (f.placed fromFallback run chosen used),
      r.Keeps (x.times f.plan)) :
    (f.reckonedBy r).take fromFallback run chosen used =
      f.take fromFallback run chosen used := by
  have hplaced : (f.reckonedBy r).placed fromFallback run chosen used =
      f.placed fromFallback run chosen used := by
    unfold placed
    rw [hexact]
    exact congrArg (Run.mk · run.turn used) (State.placeMusic_of_keeps hsum)
  rw [take_eq, take_eq, hplaced]
  exact takeBreak_reckonedBy hexact h

/-- A pass depends on nothing but the times of its trials. -/
theorem pass_reckonedBy (hexact : f.reckoning = .exact) {window : Nat} (steps : Nat)
    {offered : List Candidate}
    (h : ∀ x ∈ f.passTrials fromFallback window steps offered run, r.Keeps (x.times f.plan)) :
    (f.reckonedBy r).pass fromFallback window steps offered run =
      f.pass fromFallback window steps offered run := by
  induction steps generalizing offered run with
  | zero => rfl
  | succ steps ih =>
      by_cases hshort : run.state.total < f.plan.lowerBound
      · rw [passTrials, if_pos hshort, hexact] at h
        obtain ⟨hchoice, hrest⟩ := List.forall_mem_append.mp h
        have hchosen : run.state.choose r f.plan window f.coins run.coinsUsed offered =
            run.state.choose .exact f.plan window f.coins run.coinsUsed offered :=
          State.choose_of_keeps hchoice
        rcases hchoose : run.state.choose .exact f.plan window f.coins run.coinsUsed offered with
          ⟨none | chosen, used⟩
        · rw [pass_of_none f _ hshort (hexact ▸ hchoose)]
          exact pass_of_none (f.reckonedBy r) _ hshort (hchosen.trans hchoose)
        · -- The same track with the same coins, so the rest of the pass is the same as well.
          rw [hchoose] at hrest
          obtain ⟨hbreak, hlater⟩ := List.forall_mem_append.mp hrest
          have hsum := State.keeps_sum_of_choose hchoice hchoose
          have htake := take_reckonedBy hexact hsum hbreak
          rw [pass_of_some f _ hshort (hexact ▸ hchoose),
            pass_of_some (f.reckonedBy r) _ hshort (hchosen.trans hchoose), htake, ih hlater]
      · rw [pass_of_full f _ hshort]
        exact pass_of_full (f.reckonedBy r) _ hshort

theorem passes_reckonedBy (hexact : f.reckoning = .exact) {window : Nat} {pool : List Track}
    (count : Nat)
    (h : ∀ x ∈ f.passesTrials fromFallback window pool count run, r.Keeps (x.times f.plan)) :
    (f.reckonedBy r).passes fromFallback window pool count run =
      f.passes fromFallback window pool count run := by
  induction count generalizing run with
  | zero => rfl
  | succ count ih =>
      obtain ⟨hpass, hlater⟩ := List.forall_mem_append.mp h
      have hsame := pass_reckonedBy hexact pool.length hpass
      simp only [passes, hsame]
      -- Each side states the condition by its own filling, so each `if` is resolved on its own.
      by_cases hdone : ((f.pass fromFallback window pool.length (candidates pool) run).2.length =
          pool.length ||
        f.plan.lowerBound ≤
          (f.pass fromFallback window pool.length (candidates pool) run).1.state.total) = true
      · exact (if_pos hdone).trans (if_pos hdone).symm
      · rw [if_neg hdone] at hlater
        exact (if_neg hdone).trans ((ih hlater).trans (if_neg hdone).symm)

/-- How a block is filled depends on nothing but the times of the trials. -/
theorem filled_reckonedBy (hexact : f.reckoning = .exact) {pools : Pools}
    (h : ∀ x ∈ f.trials pools, r.Keeps (x.times f.plan)) :
    Sequence.filled (f.reckonedBy r) pools = Sequence.filled f pools := by
  obtain ⟨hown, hrest⟩ := List.forall_mem_append.mp h
  have hprimary : (f.reckonedBy r).primary pools.music (f.reckonedBy r).start =
      f.primary pools.music f.start := passes_reckonedBy hexact _ hown
  unfold Sequence.filled
  rw [hprimary]
  change (if (f.primary pools.music f.start).state.total < f.plan.lowerBound then _ else _) = _
  by_cases hshort : (f.primary pools.music f.start).state.total < f.plan.lowerBound
  · rw [if_pos hshort] at hrest
    rw [if_pos hshort, if_pos hshort]
    exact passes_reckonedBy hexact 1 hrest
  · rw [if_neg hshort, if_neg hshort]

end Keeps

end Filling

/-! ## The finished block -/

namespace Placement

variable {r : Reckoning}

theorem totalFrom_of_keeps {start : Int} {placements : List Placement}
    (h : r.Keeps (totalsFrom start placements)) :
    totalFrom r start placements = totalFrom .exact start placements := by
  induction placements generalizing start with
  | nil => rfl
  | cons p rest ih =>
      obtain ⟨hfirst, hrest⟩ := List.forall_mem_cons.mp h
      rw [Time.value_sum] at hfirst
      simp only [totalFrom, hfirst, Reckoning.hold_exact]
      exact ih hrest

theorem layOutFrom_of_keeps {start : Int} {placements : List Placement}
    (h : r.Keeps (totalsFrom start placements)) :
    layOutFrom r start placements = layOutFrom .exact start placements := by
  induction placements generalizing start with
  | nil => rfl
  | cons p rest ih =>
      obtain ⟨hfirst, hrest⟩ := List.forall_mem_cons.mp h
      rw [Time.value_sum] at hfirst
      simp only [layOutFrom, hfirst, Reckoning.hold_exact, ih hrest]

end Placement

namespace Trim

variable {r : Reckoning} {target : Int}

theorem removalsFrom_of_keeps {total : Int} {index : Nat} {before : Option Placement}
    {placements : List Placement} (h : r.Keeps (removalTimes total target before placements)) :
    removalsFrom r total target index before placements =
      removalsFrom .exact total target index before placements := by
  induction placements generalizing index before with
  | nil => rfl
  | cons p rest ih =>
      simp only [removalsFrom]
      by_cases hskipped : (p.isAd || joinsRepeats before rest.head?) = true
      · rw [removalTimes, if_pos hskipped] at h
        rw [if_pos hskipped, if_pos hskipped, ih h]
      · rw [removalTimes, if_neg hskipped] at h
        obtain ⟨hown, hlater⟩ := List.forall_mem_append.mp h
        obtain ⟨hless, hown⟩ := List.forall_mem_cons.mp hown
        obtain ⟨hmiss, hown⟩ := List.forall_mem_cons.mp hown
        have hdistance := hown _ List.mem_cons_self
        simp only [Time.value_difference, Time.value_distance] at hless hmiss hdistance
        rw [if_neg hskipped, if_neg hskipped, ih hlater, hless, hmiss, hdistance]
        rfl

theorem overshoot_of_keeps {placements : List Placement} (h : r.Keeps (times target placements)) :
    overshoot r target placements = overshoot .exact target placements := by
  obtain ⟨htotals, h⟩ := List.forall_mem_append.mp h
  obtain ⟨hover, hremovals⟩ := List.forall_mem_cons.mp h
  have htotal : Placement.total r placements = Placement.total .exact placements :=
    Placement.totalFrom_of_keeps htotals
  have hsame : removal? r target placements = removal? .exact target placements := by
    rw [Time.value_difference] at hover
    simp only [removal?, htotal, hover]
    -- Without a removal in question no distance is computed, and none is listed.
    by_cases hstays : (Placement.total .exact placements - target ≤ 0 ||
        (Placement.music placements).length ≤ 1) = true
    · exact (if_pos hstays).trans (if_pos hstays).symm
    · rw [if_neg hstays] at hremovals
      rw [removalsFrom_of_keeps hremovals]
      rfl
  simp only [overshoot, hsame]

end Trim

namespace Sequence

variable {r : Reckoning} {plan : Plan}

theorem finish_of_keeps {s : State} (h : r.Keeps (finishTimes plan s)) :
    finish r plan s = finish .exact plan s := by
  obtain ⟨htrim, hleft⟩ := List.forall_mem_append.mp h
  have hkept := Trim.overshoot_of_keeps htrim
  have hlaid := Placement.layOutFrom_of_keeps hleft
  have htotal := Placement.totalFrom_of_keeps hleft
  simp only [finish, hkept, Placement.layOut, Placement.total, hlaid, htotal]

/-- The sums in which a track is tried against the upper bound. -/
def triedSums (plan : Plan) (pools : Pools) (coins : Coins) : List Time :=
  (Filling.trials ⟨.exact, plan, pools.ads, coins⟩ pools).flatMap Trial.sums

/-- A reckoning that keeps the times of a block builds the same block as the integers. -/
theorem build_of_keeps {pools : Pools} {coins : Coins} (h : r.Keeps (times plan pools coins)) :
    build r plan pools coins = build .exact plan pools coins := by
  obtain ⟨htrials, hfinish⟩ := List.forall_mem_append.mp h
  have hfilled : filled ⟨r, plan, pools.ads, coins⟩ pools =
      filled ⟨.exact, plan, pools.ads, coins⟩ pools := by
    apply Filling.filled_reckonedBy (f := ⟨.exact, plan, pools.ads, coins⟩) rfl
    intro x hx n hn
    exact htrials n (List.mem_flatMap.mpr ⟨x, hx, hn⟩)
  simp only [build, hfilled, finish_of_keeps hfinish]

end Sequence

end Rundown
