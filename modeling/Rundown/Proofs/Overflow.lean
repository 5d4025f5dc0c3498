import Mathlib.Algebra.Order.BigOperators.Group.List
import Rundown.Proofs.DurationBound
import Rundown.Proofs.Separation
import Rundown.Proofs.SoundPlan
import Rundown.Proofs.Times

/-!
# When a run overflows

The target of a plan is at most a day, and its bounds cannot overflow.  The
durations of the tracks are only known to be positive, and a track is tried by
adding its duration to the total without regard to its size.  These sums are the
only times of a run that can leave 64 bits: the run breaks off with the first of
them that does, and without one it builds the block of the integers.  Durations
below half the range are short enough.

Nothing is said about the block of a run that breaks off; there is none.
-/

namespace Rundown

open Text

/-- Every track of the pools has a positive duration of 64 bits. -/
def Pools.AllStored (pools : Pools) : Prop :=
  ∀ t ∈ pools.music ++ pools.ads ++ pools.fallback, 0 < t.duration ∧ isWord t.duration = true

instance (pools : Pools) : Decidable pools.AllStored :=
  inferInstanceAs (Decidable (∀ t ∈ _, _))

theorem Pools.AllStored.allTimed {pools : Pools} (h : pools.AllStored) : pools.AllTimed :=
  fun t ht => (h t ht).1

namespace Time

theorem allFit_nil : AllFit [] :=
  fun _ ht => nomatch ht

theorem allFit_cons {t : Time} {times : List Time} :
    AllFit (t :: times) ↔ t.fits = true ∧ AllFit times :=
  List.forall_mem_cons

theorem allFit_append {xs ys : List Time} : AllFit (xs ++ ys) ↔ AllFit xs ∧ AllFit ys :=
  List.forall_mem_append

theorem allFit_flatMap {α : Type} {f : α → List Time} {xs : List α} :
    AllFit (xs.flatMap f) ↔ ∀ x ∈ xs, AllFit (f x) :=
  List.forall_mem_flatMap

theorem fits_iff {t : Time} :
    t.fits = true ↔ -9223372036854775808 ≤ t.value ∧ t.value ≤ 9223372036854775807 :=
  Binary64.isWord_iff

theorem fits_of_nonneg {t : Time} (hzero : 0 ≤ t.value) (hword : t.value ≤ Decimal.greatestWord) :
    t.fits = true := by
  simp only [Decimal.greatestWord] at hword
  exact fits_iff.mpr ⟨by omega, hword⟩

theorem firstMisfit?_append (xs ys : List Time) :
    firstMisfit? (xs ++ ys) = (firstMisfit? xs).or (firstMisfit? ys) :=
  List.find?_append

theorem firstMisfit?_append_of_not_allFit {xs : List Time} (h : ¬ AllFit xs) (ys : List Time) :
    firstMisfit? (xs ++ ys) = firstMisfit? xs := by
  rw [firstMisfit?_append]
  cases hfirst : firstMisfit? xs with
  | none => exact absurd (firstMisfit?_eq_none_iff.mp hfirst) h
  | some t => rfl

theorem firstMisfit?_flatMap {α : Type} {f g : α → List Time} {xs : List α}
    (h : ∀ x ∈ xs, firstMisfit? (f x) = firstMisfit? (g x)) :
    firstMisfit? (xs.flatMap f) = firstMisfit? (xs.flatMap g) := by
  induction xs with
  | nil => rfl
  | cons x xs ih =>
      obtain ⟨hx, hxs⟩ := List.forall_mem_cons.mp h
      simp only [List.flatMap_cons, firstMisfit?_append, hx, ih hxs]

end Time

/-- What has 64 bits is kept; nothing is said about other times. -/
def Reckoning.KeepsWords (r : Reckoning) : Prop :=
  ∀ n, isWord n = true → r.hold n = n

theorem Reckoning.KeepsWords.keeps {r : Reckoning} (h : r.KeepsWords) {times : List Time}
    (hfit : Time.AllFit times) : r.Keeps times :=
  fun t ht => h t.value (hfit t ht)

/-- The times of a plan stay far within 64 bits. -/
structure Plan.InRange (plan : Plan) : Prop where
  target : 0 ≤ plan.target ∧ plan.target ≤ 86400000
  upperBound : plan.upperBound ≤ 86460000
  gaps : ∀ y ∈ plan.separation, 0 ≤ y.2 ∧ y.2 ≤ Decimal.greatestWord

theorem Plan.inRange_ofDocuments (rules sequence : Document) (year : Int) :
    (ofDocuments rules sequence year).InRange := by
  have htarget := target_ofDocuments_mem rules sequence year
  have haccuracy := accuracy_ofDocuments_mem rules sequence year
  have hupper := upperBound_ofDocuments rules sequence year
  refine ⟨by omega, by omega, ?_⟩
  rintro ⟨a, gap⟩ hy
  obtain ⟨_, _, hgap⟩ := exists_gapAt?_of_mem hy
  exact ⟨gapAt?_nonneg hgap, gapAt?_le hgap⟩

namespace Filling

variable {f : Filling} {pools : Pools} {s : State}

/-! ## A block under construction -/

/-- A limit of the durations that the upper bound keeps to is one of the total. -/
theorem Grown.total_le {limit : Int} (h : f.Grown pools s) (hexact : f.reckoning = .exact)
    (hads : f.ads = pools.ads) (hzero : 0 ≤ limit) (hbound : f.plan.upperBound ≤ limit)
    (hpools : ∀ t ∈ pools.music ++ pools.ads ++ pools.fallback, t.duration ≤ limit) :
    s.total ≤ limit := by
  have htotal := h.coherent.total_eq
  rw [hexact] at htotal
  rcases h.bounds hexact with hnil | ⟨p, hone, _, _⟩ | hwithin
  · rw [htotal, hnil]
    exact hzero
  · have hp := h.forall_track hads hpools p (by rw [hone]; exact List.mem_cons_self)
    rw [htotal, hone]
    simpa [Placement.total, Placement.totalFrom] using hp
  · exact Int.le_trans hwithin hbound

/-- No placement starts before the block. -/
theorem Grown.startsAt_nonneg (h : f.Grown pools s) (hexact : f.reckoning = .exact)
    (hads : f.ads = pools.ads) (htimed : pools.AllTimed) :
    ∀ p ∈ s.placements, 0 ≤ p.startsAt := by
  induction h with
  | start => simp [State.start]
  | step fromFallback grown next ih =>
      obtain ⟨p, hp⟩ := next.appends
      rw [hp.placements]
      intro q hq
      rcases List.mem_append.mp hq with hold | hnew
      · exact ih q hold
      · rw [List.mem_singleton.mp hnew, hp.starts]
        exact (hexact ▸ grown.coherent).total_nonneg (grown.allTimed hads htimed)

/-- What is remembered of a key lies between the start of the block and its total. -/
theorem Grown.lastPlayed_mem (h : f.Grown pools s) (hexact : f.reckoning = .exact)
    (hads : f.ads = pools.ads) (htimed : pools.AllTimed) {a : Attribute} {key : String}
    {last : Int} (ha : a ∈ f.plan.separation.map (·.1))
    (hlast : s.lastPlayed.get? (a, key) = some last) : 0 ≤ last ∧ last ≤ s.total := by
  rw [h.recalls.lastPlayed_eq a ha key] at hlast
  obtain ⟨p, hp, _, rfl⟩ := History.exists_of_lastStart? hlast
  have hplaced := (Placement.mem_music.mp hp).1
  exact ⟨h.startsAt_nonneg hexact hads htimed p hplaced,
    h.startsAt_le hexact hads htimed p hplaced⟩

/-! ## What is tried -/

/-- A track of the pools is tried at a state that the block passes through, and
against the bound unless nothing is placed yet. -/
structure Tries (f : Filling) (pools : Pools) (x : Trial) : Prop where
  grown : f.Grown pools x.state
  known : x.track ∈ pools.music ++ pools.ads ++ pools.fallback
  unmeasured : x.measured = false → x.state.placements = []

theorem tries_offerTrials (hads : f.ads = pools.ads) (fromFallback : Bool) (count : Nat)
    {run : Run} (h : f.Grown pools run.state) :
    ∀ x ∈ f.offerTrials fromFallback count run, f.Tries pools x := by
  induction count generalizing run with
  | zero => simp [offerTrials]
  | succ count ih =>
      rw [offerTrials]
      split
      · simp
      · rename_i ad had
        rw [List.forall_mem_cons]
        refine ⟨⟨h, ?_, fun hskipped => by contradiction⟩, ih ?_⟩
        · have hknown := List.mem_of_getElem? had
          rw [hads] at hknown
          exact List.mem_append_left _ (List.mem_append_right _ hknown)
        · apply offer_invariant fromFallback _ 1 h
          intro s t hs hknown hfits
          exact .step fromFallback hs (.ad hknown hfits)

theorem tries_passTrials (hads : f.ads = pools.ads) (fromFallback : Bool) (steps : Nat)
    {candidates : List Candidate} {run : Run} (h : f.Grown pools run.state)
    (hpool : ∀ c ∈ candidates, c.track ∈ pools.source fromFallback) :
    ∀ x ∈ f.passTrials fromFallback (f.windowOf (pools.source fromFallback)) steps candidates
      run, f.Tries pools x := by
  induction steps generalizing candidates run with
  | zero => simp [passTrials]
  | succ steps ih =>
      rw [passTrials]
      split
      · rename_i hshort
        rw [List.forall_mem_append]
        constructor
        · unfold State.trials
          rw [List.forall_mem_map]
          intro c hc
          exact ⟨h, Pools.mem_of_mem_source (hpool c hc), by simp⟩
        · -- The interstitials of a break are tried once the chosen song is in place.
          split
          · simp
          · rename_i chosen used hsome
            obtain ⟨c, hc, hadmits, rfl⟩ := State.choose_eq_some hsome
            have htake : f.MayTake (pools.source fromFallback) run.state c.track :=
              ⟨hshort, hpool c hc, _, hadmits⟩
            rw [List.forall_mem_append]
            constructor
            · unfold breakTrials
              split
              · exact tries_offerTrials hads fromFallback _ (.step fromFallback h (.music htake))
              · simp
            · apply ih (grown_take fromFallback used h htake)
              intro other hother
              exact hpool other (List.mem_filter.mp hother).1
      · simp

theorem grown_pass (fromFallback : Bool) (steps : Nat) {candidates : List Candidate} {run : Run}
    (h : f.Grown pools run.state)
    (hpool : ∀ c ∈ candidates, c.track ∈ pools.source fromFallback) :
    f.Grown pools (f.pass fromFallback (f.windowOf (pools.source fromFallback)) steps
      candidates run).1.state :=
  pass_invariant (P := fun run => f.Grown pools run.state)
    (fun _ _ used hrun htake => grown_take fromFallback used hrun htake) steps hpool h

theorem grown_passes (fromFallback : Bool) (count : Nat) {run : Run}
    (h : f.Grown pools run.state) :
    f.Grown pools (f.passes fromFallback (f.windowOf (pools.source fromFallback))
      (pools.source fromFallback) count run).state :=
  passes_invariant (P := fun run => f.Grown pools run.state)
    (fun _ _ used hrun htake => grown_take fromFallback used hrun htake) count h

theorem tries_passesTrials (hads : f.ads = pools.ads) (fromFallback : Bool) (count : Nat)
    {run : Run} (h : f.Grown pools run.state) :
    ∀ x ∈ f.passesTrials fromFallback (f.windowOf (pools.source fromFallback))
      (pools.source fromFallback) count run, f.Tries pools x := by
  induction count generalizing run with
  | zero => simp [passesTrials]
  | succ count ih =>
      simp only [passesTrials]
      rw [List.forall_mem_append]
      constructor
      · exact tries_passTrials hads fromFallback _ h fun _ hc => mem_candidates hc
      · split
        · simp
        · exact ih (grown_pass fromFallback _ h fun _ hc => mem_candidates hc)

/-- All that a run tries are tracks of the pools at states it passes through. -/
theorem tries_trials (hads : f.ads = pools.ads) : ∀ x ∈ f.trials pools, f.Tries pools x := by
  unfold trials
  simp only
  rw [List.forall_mem_append]
  constructor
  · exact tries_passesTrials hads false _ .start
  · split
    · exact tries_passesTrials hads true 1 (grown_passes false _ .start)
    · simp

end Filling

/-! ## The range of the times -/

section Ranges

variable {target total : Int}

/-- A sum in range and a target of at most a day make all times of a closeness so. -/
theorem Score.allFit_closenessTimes {duration : Int}
    (htarget : 0 ≤ target ∧ target ≤ 86400000) (hsum : 0 ≤ total + duration)
    (hword : isWord (total + duration) = true) :
    Time.AllFit (closenessTimes target total duration) := by
  have hrange := (Binary64.isWord_iff.mp hword).2
  simp only [closenessTimes, Time.allFit_cons, Time.fits_iff, Time.value_sum,
    Time.value_difference, Time.value_distance, Time.allFit_nil, and_true]
  omega

theorem State.allFit_shortfallTimes {s : State} {t : Track} {a : Attribute} {gap : Int}
    (htotal : s.total ≤ Decimal.greatestWord) (hgap : 0 ≤ gap ∧ gap ≤ Decimal.greatestWord)
    (hlast : ∀ key last, s.lastPlayed.get? (a, key) = some last → 0 ≤ last ∧ last ≤ s.total) :
    Time.AllFit (s.shortfallTimes t a gap) := by
  unfold shortfallTimes
  cases hfound : (a.key? t).bind fun key => s.lastPlayed.get? (a, key) with
  | none => exact Time.allFit_nil
  | some last =>
      obtain ⟨key, _, hplayed⟩ := Option.bind_eq_some_iff.mp hfound
      obtain ⟨hnonneg, hle⟩ := hlast key last hplayed
      simp only [Decimal.greatestWord] at htotal hgap
      simp only [Time.allFit_cons, Time.fits_iff, Time.value_difference, Time.allFit_nil, and_true]
      omega

/-- With positive durations the totals grow from the offset to the final one. -/
theorem Placement.mem_totalsFrom {start : Int} {t : Time} {placements : List Placement}
    (htimed : ∀ p ∈ placements, 0 < p.track.duration) (ht : t ∈ totalsFrom start placements) :
    start ≤ t.value ∧ t.value ≤ totalFrom .exact start placements := by
  induction placements generalizing start with
  | nil => contradiction
  | cons p rest ih =>
      obtain ⟨hfirst, hrest⟩ := List.forall_mem_cons.mp htimed
      have hfinal : start + p.track.duration ≤ totalFrom .exact (start + p.track.duration) rest :=
        le_totalFrom_exact _ hrest
      change start ≤ t.value ∧ t.value ≤ totalFrom .exact (start + p.track.duration) rest
      rcases List.mem_cons.mp ht with rfl | hlater
      · rw [Time.value_sum]
        exact ⟨by omega, hfinal⟩
      · obtain ⟨hle, hwithin⟩ := ih hrest hlater
        exact ⟨by omega, hwithin⟩

theorem Placement.allFit_totals {placements : List Placement}
    (htimed : ∀ p ∈ placements, 0 < p.track.duration)
    (hword : Placement.total .exact placements ≤ Decimal.greatestWord) :
    Time.AllFit (totalsFrom 0 placements) := by
  intro t ht
  obtain ⟨hnonneg, hle⟩ := mem_totalsFrom htimed ht
  exact Time.fits_of_nonneg hnonneg (Int.le_trans hle hword)

/-- No placement takes longer than all placements together. -/
theorem Placement.duration_le_total {placements : List Placement} {p : Placement}
    (htimed : ∀ q ∈ placements, 0 < q.track.duration) (hp : p ∈ placements) :
    p.track.duration ≤ Placement.total .exact placements := by
  have hsum : p.track.duration ≤ (placements.map (·.track.duration)).sum := by
    apply List.single_le_sum _ _ (List.mem_map_of_mem hp)
    intro n hn
    obtain ⟨q, hq, rfl⟩ := List.mem_map.mp hn
    exact Int.le_of_lt (htimed q hq)
  unfold total
  rw [totalFrom_exact_eq_add_sum, Int.zero_add]
  exact hsum

theorem Trim.allFit_removalTimes {before : Option Placement} {placements : List Placement}
    (htarget : 0 ≤ target ∧ target ≤ 86400000) (hword : total ≤ Decimal.greatestWord)
    (hdurations : ∀ p ∈ placements, 0 < p.track.duration ∧ p.track.duration ≤ total) :
    Time.AllFit (removalTimes total target before placements) := by
  induction placements generalizing before with
  | nil => exact Time.allFit_nil
  | cons p rest ih =>
      obtain ⟨⟨hpos, hle⟩, hrest⟩ := List.forall_mem_cons.mp hdurations
      rw [removalTimes]
      split
      · exact ih hrest
      · -- What is left of the total is not below zero, for no placement is longer.
        refine Time.allFit_append.mpr ⟨?_, ih hrest⟩
        simp only [Decimal.greatestWord] at hword
        simp only [Time.allFit_cons, Time.fits_iff, Time.value_difference, Time.value_distance,
          Time.allFit_nil, and_true]
        omega

/-- A block whose total is in range is finished with times in range. -/
theorem Sequence.allFit_finishTimes {plan : Plan} {s : State} (hs : s.Coherent .exact)
    (htimed : ∀ p ∈ s.placements, 0 < p.track.duration)
    (htarget : 0 ≤ plan.target ∧ plan.target ≤ 86400000)
    (hword : s.total ≤ Decimal.greatestWord) : Time.AllFit (finishTimes plan s) := by
  have hnonneg := hs.total_nonneg htimed
  rw [hs.total_eq] at hword hnonneg
  apply Time.allFit_append.mpr
  constructor
  · apply Time.allFit_append.mpr
    refine ⟨Placement.allFit_totals htimed hword, Time.allFit_cons.mpr ⟨?_, ?_⟩⟩
    · simp only [Decimal.greatestWord] at hword
      rw [Time.fits_iff, Time.value_difference]
      omega
    · split
      · exact Time.allFit_nil
      · apply Trim.allFit_removalTimes htarget hword
        intro p hp
        exact ⟨htimed p hp, Placement.duration_le_total htimed hp⟩
  · rcases Trim.overshoot_exact_cases plan.target s.placements with
      hkept | ⟨earlier, removed, later, hremoves⟩
    · rw [hkept]
      exact Placement.allFit_totals htimed hword
    · rw [hremoves.overshoot_eq]
      apply Placement.allFit_totals
      · exact fun p hp => htimed p (hremoves.left_sublist.mem hp)
      · have hpos := htimed removed hremoves.mem
        rw [Placement.total_exact_remove earlier removed later, ← hremoves.1]
        omega

end Ranges

namespace Filling

/-! ## The times of a run -/

section Runs

variable {f : Filling} {pools : Pools} {s : State} {x : Trial}

theorem Grown.total_word (h : f.Grown pools s) (hexact : f.reckoning = .exact)
    (hads : f.ads = pools.ads) (hplan : f.plan.InRange) (hstored : pools.AllStored) :
    s.total ≤ Decimal.greatestWord := by
  apply h.total_le hexact hads (by decide) (Int.le_trans hplan.upperBound (by decide))
  intro t ht
  exact (Binary64.isWord_iff.mp (hstored t ht).2).2

/-- Judging a track against the separation never leaves the range. -/
theorem Grown.allFit_violationTimes (h : f.Grown pools s) (hexact : f.reckoning = .exact)
    (hads : f.ads = pools.ads) (hplan : f.plan.InRange)
    (hstored : pools.AllStored) (t : Track) : Time.AllFit (s.violationTimes f.plan t) := by
  unfold State.violationTimes
  split
  · apply Time.allFit_flatMap.mpr
    intro y hy
    apply State.allFit_shortfallTimes (h.total_word hexact hads hplan hstored) (hplan.gaps y hy)
    intro key last hlast
    exact h.lastPlayed_mem hexact hads hstored.allTimed (List.mem_map_of_mem hy) hlast
  · exact Time.allFit_nil

/-- A trial whose sum is in range, if it forms one, has all its times in range. -/
theorem Tries.allFit_times (h : f.Tries pools x) (hexact : f.reckoning = .exact)
    (hads : f.ads = pools.ads) (hplan : f.plan.InRange)
    (hstored : pools.AllStored) (hsums : Time.AllFit x.sums) : Time.AllFit (x.times f.plan) := by
  have htarget := hplan.target
  have hcoherent : x.state.Coherent .exact := hexact ▸ h.grown.coherent
  have hnonneg := hcoherent.total_nonneg (h.grown.allTimed hads hstored.allTimed)
  obtain ⟨hpos, hduration⟩ := hstored x.track h.known
  have hsum : isWord (x.state.total + x.track.duration) = true := by
    cases hmeasured : x.measured with
    | true =>
        apply hsums (x.state.totalWith x.track)
        rw [Trial.sums, if_pos hmeasured]
        exact List.mem_cons_self
    | false =>
        -- Nothing is placed yet, so the sum is the duration.
        have hzero := hcoherent.total_eq
        rw [h.unmeasured hmeasured] at hzero
        rw [hzero, Placement.total, Placement.totalFrom, Int.zero_add]
        exact hduration
  apply Time.allFit_append.mpr
  refine ⟨hsums, ?_⟩
  split
  · apply Time.allFit_append.mpr
    exact ⟨h.grown.allFit_violationTimes hexact hads hplan hstored x.track,
      Score.allFit_closenessTimes (by omega) (by omega) hsum⟩
  · exact Time.allFit_nil

/-- Below half the range the sums of a trial are in range. -/
theorem Tries.allFit_sums (h : f.Tries pools x) (hexact : f.reckoning = .exact)
    (hads : f.ads = pools.ads) (hplan : f.plan.InRange) (htimed : pools.AllTimed)
    (hshort : ∀ t ∈ pools.music ++ pools.ads ++ pools.fallback,
      t.duration < 4611686018427387904) : Time.AllFit x.sums := by
  have htotal : x.state.total ≤ 4611686018427387903 := by
    apply h.grown.total_le hexact hads (by decide)
      (Int.le_trans hplan.upperBound (by decide))
    intro t ht
    have hduration := hshort t ht
    omega
  have hcoherent : x.state.Coherent .exact := hexact ▸ h.grown.coherent
  have hnonneg := hcoherent.total_nonneg (h.grown.allTimed hads htimed)
  have hpos := htimed x.track h.known
  have hduration := hshort x.track h.known
  unfold Trial.sums
  split
  · apply Time.allFit_cons.mpr
    have hvalue : (x.state.totalWith x.track).value = x.state.total + x.track.duration := rfl
    refine ⟨Time.fits_of_nonneg (by omega) ?_, Time.allFit_nil⟩
    rw [Decimal.greatestWord]
    omega
  · exact Time.allFit_nil

end Runs

end Filling

namespace Sample

/-- A short song and one that is just short of half the range of 64 bits. -/
def longSong : Pools :=
  ⟨[.song "a" "X" 300000, .song "b" "Y" 4611686018427387903], [], []⟩

/-- A short song and two of nearly the whole range of 64 bits. -/
def endlessSongs : Pools :=
  ⟨[.song "a" "X" 300000, .song "b" "Y" 9223372036854775806,
    .song "c" "Z" 9223372036854775807], [], []⟩

end Sample

namespace Sequence

section Runs

variable {plan : Plan} {pools : Pools} {coins : Coins}

/-- A track is tried by a sum. -/
theorem operation_of_mem_triedSums {t : Time} (h : t ∈ triedSums plan pools coins) :
    t.operation = .sum := by
  obtain ⟨x, _, ht⟩ := List.mem_flatMap.mp h
  unfold Trial.sums at ht
  split at ht
  · rw [List.mem_singleton.mp ht]
    rfl
  · contradiction

variable (hplan : plan.InRange)
variable (hstored : pools.AllStored)

include hplan hstored

theorem allFit_times_of_allFit_sums {x : Trial}
    (hx : x ∈ Filling.trials ⟨.exact, plan, pools.ads, coins⟩ pools) (hsums : Time.AllFit x.sums) :
    Time.AllFit (x.times plan) :=
  (Filling.tries_trials rfl x hx).allFit_times rfl rfl hplan hstored hsums

theorem allFit_finishTimes_filled : Time.AllFit (finishTimes plan
    (filled ⟨.exact, plan, pools.ads, coins⟩ pools).state) := by
  have htarget := hplan.target
  have hgrown := Filling.grown_filled ⟨.exact, plan, pools.ads, coins⟩ pools
  exact allFit_finishTimes hgrown.coherent (hgrown.allTimed rfl hstored.allTimed) (by omega)
    (hgrown.total_word rfl rfl hplan hstored)

/-- The first time out of range, if there is one, is a sum in which a track is tried. -/
theorem firstMisfit?_times :
    Time.firstMisfit? (times plan pools coins) =
      Time.firstMisfit? (triedSums plan pools coins) := by
  have hfinish : Time.firstMisfit? (finishTimes plan
      (filled ⟨.exact, plan, pools.ads, coins⟩ pools).state) = none :=
    Time.firstMisfit?_eq_none_iff.mpr (allFit_finishTimes_filled hplan hstored)
  have htrials : Time.firstMisfit?
        ((Filling.trials ⟨.exact, plan, pools.ads, coins⟩ pools).flatMap (Trial.times plan)) =
      Time.firstMisfit? (triedSums plan pools coins) := by
    apply Time.firstMisfit?_flatMap
    intro x hx
    -- The scores of a trial are behind its sum.
    by_cases hsums : Time.AllFit x.sums
    · rw [Time.firstMisfit?_eq_none_iff.mpr hsums, Time.firstMisfit?_eq_none_iff]
      exact allFit_times_of_allFit_sums hplan hstored hx hsums
    · exact Time.firstMisfit?_append_of_not_allFit hsums _
  rw [times, Time.firstMisfit?_append, hfinish, Option.or_none, htrials]

theorem allFit_times_iff :
    Time.AllFit (times plan pools coins) ↔ Time.AllFit (triedSums plan pools coins) := by
  rw [← Time.firstMisfit?_eq_none_iff, ← Time.firstMisfit?_eq_none_iff,
    firstMisfit?_times hplan hstored]

/-- A run breaks off exactly if a sum in which a track is tried is out of range. -/
theorem tryBuild_eq_guard :
    tryBuild plan pools coins =
      Overflow.guard (triedSums plan pools coins) (build .exact plan pools coins) := by
  rw [tryBuild, Overflow.guard, Overflow.guard, firstMisfit?_times hplan hstored]

theorem allFit_triedSums_of_short
    (hshort : ∀ t ∈ pools.music ++ pools.ads ++ pools.fallback,
      t.duration < 4611686018427387904) : Time.AllFit (triedSums plan pools coins) := by
  apply Time.allFit_flatMap.mpr
  intro x hx
  have htries : Filling.Tries ⟨.exact, plan, pools.ads, coins⟩ pools x :=
    Filling.tries_trials rfl x hx
  exact htries.allFit_sums rfl rfl hplan hstored.allTimed hshort

end Runs

/-- With durations below half the range the run of a plan from documents ends. -/
theorem allFit_times_of_short (rules sequence : Document) (year : Int) {pools : Pools}
    (coins : Coins) (hstored : pools.AllStored)
    (hshort : ∀ t ∈ pools.music ++ pools.ads ++ pools.fallback,
      t.duration < 4611686018427387904) :
    Time.AllFit (times (Plan.ofDocuments rules sequence year) pools coins) := by
  have hplan := Plan.inRange_ofDocuments rules sequence year
  exact (allFit_times_iff hplan hstored).mpr
    (allFit_triedSums_of_short hplan hstored hshort)

/-- The sums in which tracks are tried are the only times that may leave 64 bits.  The
run breaks off with the first of them that does; without one all times of the run are in
range, and whatever keeps 64 bits builds the block of the integers.  Durations below half
the range are sufficient. -/
theorem tryBuild_eq (rules sequence : Document) (year : Int) (pools : Pools) (coins : Coins)
    (hstored : pools.AllStored) :
    let plan := Plan.ofDocuments rules sequence year
    tryBuild plan pools coins =
        (if Time.AllFit (triedSums plan pools coins) then .ok (build .exact plan pools coins)
        else .error ⟨.sum⟩) ∧
      (Time.AllFit (times plan pools coins) ↔ Time.AllFit (triedSums plan pools coins)) ∧
      (Time.AllFit (times plan pools coins) → ∀ r : Reckoning, r.KeepsWords →
        build r plan pools coins = build .exact plan pools coins) ∧
      ((∀ t ∈ pools.music ++ pools.ads ++ pools.fallback, t.duration < 4611686018427387904) →
        Time.AllFit (triedSums plan pools coins)) := by
  intro plan
  have hplan : plan.InRange := Plan.inRange_ofDocuments rules sequence year
  refine ⟨?_, ?_, fun hfit r hr => build_of_keeps (hr.keeps hfit), ?_⟩
  · rw [tryBuild_eq_guard hplan hstored]
    split
    · rename_i hfit
      exact Overflow.guard_of_allFit hfit
    · rename_i hmisfit
      obtain ⟨t, ht, herror⟩ := Overflow.exists_guard_eq_error hmisfit
      rw [herror, operation_of_mem_triedSums ht]
  · exact allFit_times_iff hplan hstored
  · exact allFit_triedSums_of_short hplan hstored

/-- A song of nearly half the range is tried and refused without an overflow. -/
theorem tryBuild_eq_sample :
    Sample.longSong.AllStored ∧
      tryBuild Sample.plan Sample.longSong Sample.coins =
        .ok (build .exact Sample.plan Sample.longSong Sample.coins) := by
  have hstored : Sample.longSong.AllStored := by decide
  obtain ⟨hrun, _, _, hshort⟩ :=
    tryBuild_eq Sample.rules .empty 2026 Sample.longSong Sample.coins hstored
  exact ⟨hstored, hrun.trans (if_pos (hshort (by decide)))⟩

/-- Behind a song of five minutes the run breaks off with the first endless one that it
tries. -/
theorem not_forall_tryBuild_eq :
    ¬ ∀ (rules sequence : Document) (year : Int) (pools : Pools) (coins : Coins),
      let plan := Plan.ofDocuments rules sequence year
      pools.AllStored → Time.AllFit (times plan pools coins) ∧
        tryBuild plan pools coins = .ok (build .exact plan pools coins) := by
  intro h
  obtain ⟨_, hrun⟩ := h Sample.rules .empty 2026 Sample.endlessSongs Sample.coins (by decide)
  have hmisfit : ¬ Time.AllFit (times Sample.plan Sample.endlessSongs Sample.coins) := by
    decide +kernel
  exact hmisfit (tryBuild_eq_ok_iff.mp hrun).1

end Sequence

end Rundown
