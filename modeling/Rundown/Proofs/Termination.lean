import Mathlib.Data.Prod.Lex
import Mathlib.Logic.Relation
import Rundown.Proofs.Breaks
import Rundown.Proofs.Standstill

/-!
# A phase ends, and what a block holds at most

A phase goes on while the block is short, and tracks without a duration need not make it
any longer.  What ends it is that each turn uses up a candidate of the pass: the passes
that are left and the candidates that are not used yet decrease lexicographically.
`Filling.Advance` is a turn of the two loops without any count of steps, and the phases
of a block are led to the ends of these loops.

A pass therefore places each track of its pool at most once.  This bounds the music of
a block, and the music bounds its interstitials.  The bounds are those of the block
before the trim, which may take music away and leave the breaks after it.  Durations of
any sign are admitted throughout, under any reckoning of times.
-/

namespace Rundown

namespace Filling

variable (f : Filling) (fromFallback : Bool) (pool : List Track)

/-! ## The loops of a phase -/

/-- Where a phase stands. -/
structure Position where
  /-- The passes that are left, with the current one. -/
  passes : Nat
  /-- The candidates that the current pass has not used. -/
  unused : List Candidate
  run : Run

/-- The choice of the next candidate at a position. -/
def Position.choice (p : Position) : Option Scored × Nat :=
  p.run.state.choose f.reckoning f.plan (f.windowOf pool) f.coins p.run.coinsUsed p.unused

/-- A phase of so many passes before its first turn. -/
def phaseStart (passes : Nat) (run : Run) : Position :=
  ⟨passes, candidates pool, run⟩

/-- One turn of a phase, while the block is short of its lower bound. -/
inductive Advance : Position → Position → Prop
  /-- A candidate is chosen among the unused ones, marked as used and placed. -/
  | select {p : Position} {chosen : Scored} {used : Nat}
      (short : p.run.state.total < f.plan.lowerBound)
      (choice : p.choice f pool = (some chosen, used)) :
      Advance p ⟨p.passes, p.unused.filter (·.index != chosen.candidate.index),
        f.take fromFallback p.run chosen used⟩
  /-- A pass that has placed something and finds no further candidate is followed by
  another one over the whole pool, if one is left. -/
  | again {p : Position} (short : p.run.state.total < f.plan.lowerBound)
      (choice : (p.choice f pool).1 = none) (placed : p.unused.length ≠ pool.length)
      (left : 1 < p.passes) :
      Advance p (phaseStart pool (p.passes - 1) p.run)

/-- The loops lead from the opening of a phase to a run, and go no further there. -/
def EndsIn (passes : Nat) (run last : Run) : Prop :=
  ∃ p : Position,
    Relation.ReflTransGen (f.Advance fromFallback pool) (phaseStart pool passes run) p ∧
      p.run = last ∧ ∀ next, ¬ f.Advance fromFallback pool p next

/-- The passes that are left, and then the candidates that are not used. -/
def Position.measure (p : Position) : ℕ ×ₗ ℕ :=
  toLex (p.passes, p.unused.length)

variable {f fromFallback pool}

theorem Advance.measure_lt {p next : Position} (h : f.Advance fromFallback pool p next) :
    next.measure < p.measure := by
  cases h with
  | select short choice =>
      exact Prod.Lex.toLex_lt_toLex.mpr (Or.inr ⟨rfl, length_filter_index_lt choice⟩)
  | again short choice placed left =>
      exact Prod.Lex.toLex_lt_toLex.mpr (Or.inl (Nat.sub_lt (by omega) Nat.one_pos))

variable (f fromFallback pool) in
/-- No phase goes on for ever. -/
theorem wellFounded_advance :
    WellFounded fun next p : Position => f.Advance fromFallback pool p next :=
  Subrelation.wf (fun h => Advance.measure_lt h) (InvImage.wf Position.measure wellFounded_lt)

/-! ## Where the loops lead -/

variable {unused : List Candidate} {run : Run}

/-- A pass is a sequence of selections, whatever its count of steps. -/
theorem reaches_pass (steps passes : Nat) :
    Relation.ReflTransGen (f.Advance fromFallback pool) ⟨passes, unused, run⟩
      ⟨passes, (f.pass fromFallback (f.windowOf pool) steps unused run).2,
        (f.pass fromFallback (f.windowOf pool) steps unused run).1⟩ := by
  induction steps generalizing unused run with
  | zero => exact .refl
  | succ steps ih =>
      by_cases hshort : run.state.total < f.plan.lowerBound
      · rcases hturn : run.state.choose f.reckoning f.plan (f.windowOf pool) f.coins run.coinsUsed
          unused with ⟨_ | chosen, used⟩
        · rw [f.pass_of_none fromFallback hshort hturn, (State.choose_eq_none hturn).1]
        · rw [f.pass_of_some fromFallback hshort hturn]
          exact .head (.select (p := ⟨passes, unused, run⟩) hshort hturn) ih
      · rw [f.pass_of_full fromFallback hshort]

variable (f fromFallback pool) in
/-- The first pass of a phase goes on until the block is full or nothing is chosen. -/
theorem first_pass (passes : Nat) (run : Run) :
    let result := f.pass fromFallback (f.windowOf pool) pool.length (candidates pool) run
    let p : Position := ⟨passes, result.2, result.1⟩
    Relation.ReflTransGen (f.Advance fromFallback pool) (phaseStart pool passes run) p ∧
      (p.run.state.total < f.plan.lowerBound → (p.choice f pool).1 = none) :=
  ⟨reaches_pass pool.length passes,
    choose_of_pass pool.length (length_candidates pool).le⟩

/-- Where nothing more is chosen, only another pass can go on. -/
theorem Advance.again_of_choice {p next : Position} (h : f.Advance fromFallback pool p next)
    (hchoice : p.run.state.total < f.plan.lowerBound → (p.choice f pool).1 = none) :
    p.run.state.total < f.plan.lowerBound ∧ p.unused.length ≠ pool.length ∧ 1 < p.passes := by
  cases h with
  | select short choice =>
      have hnone := hchoice short
      rw [choice] at hnone
      contradiction
  | again short choice placed left => exact ⟨short, placed, left⟩

/-- The passes over a pool are the loops of a phase, followed to their end. -/
theorem endsIn_passes (count : Nat) (run : Run) :
    f.EndsIn fromFallback pool (count + 1) run
      (f.passes fromFallback (f.windowOf pool) pool (count + 1) run) := by
  induction count generalizing run with
  | zero =>
      obtain ⟨hreach, hended⟩ := f.first_pass fromFallback pool 1 run
      -- After the only pass it makes no difference whether another one would be due.
      simp only [passes, ite_self]
      refine ⟨_, hreach, rfl, fun next hnext => ?_⟩
      exact absurd (hnext.again_of_choice hended).2.2 (Nat.lt_irrefl 1)
  | succ count ih =>
      obtain ⟨hreach, hended⟩ := f.first_pass fromFallback pool (count + 2) run
      simp only [passes]
      split
      · rename_i hdone
        refine ⟨_, hreach, rfl, fun next hnext => ?_⟩
        obtain ⟨hshort, hplaced, _⟩ := hnext.again_of_choice hended
        simp only [Bool.or_eq_true, decide_eq_true_eq] at hdone
        exact hdone.elim hplaced (Int.not_le.mpr hshort)
      · rename_i hmore
        simp only [Bool.or_eq_true, decide_eq_true_eq, not_or, Int.not_le] at hmore
        obtain ⟨p, hrest, hrun, hend⟩ :=
          ih (f.pass fromFallback (f.windowOf pool) pool.length (candidates pool) run).1
        refine ⟨p, hreach.trans (.head (.again hmore.2 (hended hmore.2) hmore.1 ?_) hrest),
          hrun, hend⟩
        exact Nat.lt_add_left count (by decide)

/-! ## What is placed -/

/-- The songs of a pass are candidates of the pool, each placed once. -/
theorem exists_once_of_pass (f : Filling) (fromFallback : Bool) (window : Nat)
    (pool : List Track) (run : Run) :
    ∃ taken : List Candidate, (taken.map (·.index)).Nodup ∧ taken ⊆ candidates pool ∧
      Placement.songs (f.pass fromFallback window pool.length (candidates pool)
          run).1.state.placements =
        Placement.songs run.state.placements ++ taken.map (·.track) := by
  obtain ⟨taken, hsongs, hperm⟩ :=
    f.pass_takes fromFallback window pool.length run (nodup_index_candidates pool)
  have hindex : ((taken ++ (f.pass fromFallback window pool.length (candidates pool) run).2).map
      (·.index)).Nodup :=
    (hperm.map _).nodup_iff.mpr (nodup_index_candidates pool)
  rw [List.map_append] at hindex
  exact ⟨taken, (List.nodup_append.mp hindex).1,
    List.Subset.trans (List.subset_append_left _ _) hperm.subset, hsongs⟩

variable (f fromFallback pool) in
/-- Each pass adds no more songs than the pool has tracks. -/
theorem length_songs_passes_le (window count : Nat) (run : Run) :
    (Placement.songs (f.passes fromFallback window pool count run).state.placements).length ≤
      (Placement.songs run.state.placements).length + count * pool.length := by
  induction count generalizing run with
  | zero => exact Nat.le_add_right _ _
  | succ count ih =>
      obtain ⟨taken, hsongs, hperm⟩ :=
        f.pass_takes fromFallback window pool.length run (nodup_index_candidates pool)
      have htaken := hperm.length_eq
      rw [List.length_append, length_candidates] at htaken
      have hfirst := congrArg List.length hsongs
      rw [List.length_append, List.length_map] at hfirst
      simp only [passes]
      rw [Nat.succ_mul]
      split
      · omega
      · have hrest := ih (f.pass fromFallback window pool.length (candidates pool) run).1
        omega

variable (f) in
theorem length_songs_filled_le (pools : Pools) :
    (Placement.songs (Sequence.filled f pools).state.placements).length ≤
      (if f.plan.allowRepeats then greatestPasses else 1) * pools.music.length +
        pools.fallback.length := by
  have hown : (Placement.songs (f.primary pools.music f.start).state.placements).length ≤
      0 + (if f.plan.allowRepeats then greatestPasses else 1) * pools.music.length :=
    f.length_songs_passes_le false pools.music _ _ f.start
  unfold Sequence.filled
  simp only
  split
  · have hlent := f.length_songs_passes_le true pools.fallback (f.windowOf pools.fallback) 1
      (f.primary pools.music f.start)
    unfold fallback
    omega
  · omega

/-! ## Interstitials -/

/-- Between two turns there are at most as many interstitials as the breaks that were
due have offered. -/
def AdsWithin (f : Filling) (run : Run) : Prop :=
  run.state.placements.countP (·.isAd) ≤
    f.plan.breaks.perBreak * (run.state.musicCount / f.plan.breaks.every)

theorem countP_isAd_eq (placements : List Placement) :
    placements.countP (·.isAd) = (Placement.marks placements).count true := by
  unfold Placement.marks
  rw [List.count_eq_countP, List.countP_map]
  congr 1
  funext p
  simp

theorem countP_isAd_offer_le (count : Nat) (run : Run) :
    (f.offer fromFallback count run).state.placements.countP (·.isAd) ≤
      run.state.placements.countP (·.isAd) + count := by
  obtain ⟨placed, hplaced, hmarks⟩ := f.marks_offer fromFallback count run
  rw [countP_isAd_eq, countP_isAd_eq, hmarks, List.count_append, List.count_replicate_self]
  exact Nat.add_le_add_left hplaced _

theorem musicCount_offer (count : Nat) (run : Run) :
    (f.offer fromFallback count run).state.musicCount = run.state.musicCount :=
  offer_invariant fromFallback (P := fun s => s.musicCount = run.state.musicCount)
    (fun _ _ h _ _ => h) count rfl

/-- A turn places one song, and interstitials only when the song completes a round. -/
theorem AdsWithin.take (h : f.AdsWithin run) (chosen : Scored) (used : Nat) :
    f.AdsWithin (f.take fromFallback run chosen used) := by
  let noted : State := { run.state with relaxed := run.state.relaxed || chosen.violation != 0 }
  let placed : Run :=
    ⟨noted.placeMusic f.reckoning f.plan chosen.candidate.track fromFallback, run.turn, used⟩
  have hcount : placed.state.musicCount = run.state.musicCount + 1 := rfl
  have hads : placed.state.placements.countP (·.isAd) =
      run.state.placements.countP (·.isAd) :=
    List.countP_append
  change f.AdsWithin (f.takeBreak fromFallback placed)
  unfold takeBreak
  split
  · rename_i hdue
    have hround : f.plan.breaks.every ∣ run.state.musicCount + 1 := by
      simp only [breakDue, Bool.and_eq_true, beq_iff_eq] at hdue
      exact Nat.dvd_of_mod_eq_zero hdue.2
    have hoffered : (f.offer fromFallback f.plan.breaks.perBreak placed).state.placements.countP
        (·.isAd) ≤ placed.state.placements.countP (·.isAd) + f.plan.breaks.perBreak :=
      countP_isAd_offer_le _ placed
    unfold AdsWithin at h ⊢
    rw [musicCount_offer, hcount, Nat.succ_div_of_dvd hround, Nat.mul_succ]
    omega
  · unfold AdsWithin at h ⊢
    rw [hads, hcount]
    exact h.trans (Nat.mul_le_mul_left _ (Nat.div_le_div_right (Nat.le_succ _)))

theorem adsWithin_filled (f : Filling) (pools : Pools) : f.AdsWithin (Sequence.filled f pools) :=
  filled_invariant (P := f.AdsWithin) (Nat.zero_le _) fun _ _ _ used h _ => h.take _ used

end Filling

namespace Sequence

/-- The loops of both phases come to an end whatever the durations are, and the phases
of a block are those ends.  A pass places no candidate of its pool twice, so the block
before the trim holds at most a hundred times the own songs, or once where they may not
be repeated, and once the fallbacks; and it holds at most as many interstitials as the
breaks of its music have places. -/
theorem untrimmed_bounded (r : Reckoning) (plan : Plan) (pools : Pools) (coins : Coins) :
    let f : Filling := ⟨r, plan, pools.ads, coins⟩
    let block := untrimmed r plan pools coins
    (∀ fromFallback pool, WellFounded fun next p : Filling.Position =>
      f.Advance fromFallback pool p next) ∧
    (∀ pool run,
      f.EndsIn false pool (if plan.allowRepeats then 100 else 1) run (f.primary pool run) ∧
        f.EndsIn true pool 1 run (f.fallback pool run)) ∧
    (∀ fromFallback window pool run, ∃ taken : List Candidate,
      (taken.map (·.index)).Nodup ∧ taken ⊆ Filling.candidates pool ∧
        Placement.songs (f.pass fromFallback window pool.length (Filling.candidates pool)
            run).1.state.placements =
          Placement.songs run.state.placements ++ taken.map (·.track)) ∧
    (Placement.music block).length ≤
      (if plan.allowRepeats then 100 else 1) * pools.music.length + pools.fallback.length ∧
    block.countP (·.isAd) ≤
      plan.breaks.perBreak * ((Placement.music block).length / plan.breaks.every) := by
  intro f block
  have hsongs : (Placement.songs block).length = (Placement.music block).length :=
    List.length_map _
  refine ⟨f.wellFounded_advance, ?_, f.exists_once_of_pass, ?_, ?_⟩
  · intro pool run
    refine ⟨?_, Filling.endsIn_passes 0 run⟩
    unfold Filling.primary
    cases hrepeats : plan.allowRepeats with
    | true => exact Filling.endsIn_passes 99 run
    | false => exact Filling.endsIn_passes 0 run
  · rw [← hsongs]
    exact f.length_songs_filled_le pools
  · have hcount : (filled f pools).state.musicCount = (Placement.songs block).length :=
      (f.grown_filled pools).recalls.musicCount_eq
    have hads : block.countP (·.isAd) ≤ plan.breaks.perBreak *
        ((filled f pools).state.musicCount / plan.breaks.every) :=
      f.adsWithin_filled pools
    rw [hcount, hsongs] at hads
    exact hads

end Sequence

end Rundown
