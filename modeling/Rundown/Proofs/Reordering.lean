import Rundown.Proofs.Finish
import Rundown.Proofs.Lockstep

/-!
# Pools in another order

A catalog delivers its tracks in an order that a seed decides.  The order
matters to a block only through coins: if a block is built without one, every
choice had a single best candidate, and the same tracks in any other order, with
any coins, give the same block.  The second run may well use coins, between
candidates that lose in the end.

Nothing is promised when a tempo is a NaN, since the scores are not ordered then.
-/

namespace Rundown

namespace Scored

/-- A scored candidate without its place in the pool. -/
def unplaced (s : Scored) : Scored :=
  { s with candidate := ⟨0, s.candidate.track⟩ }

/-- The comparisons do not look at the place in the pool. -/
theorem best_map_unplaced (coins : Coins) (used : Nat) (scored : List Scored) :
    best coins used (scored.map unplaced) =
      ((best coins used scored).1.map unplaced, (best coins used scored).2) := by
  have hfrom : ∀ (rest : List Scored) (favourite : Scored) (n : Nat),
      bestFrom coins favourite.unplaced n (rest.map unplaced) =
        ((bestFrom coins favourite n rest).1.unplaced, (bestFrom coins favourite n rest).2) := by
    intro rest
    induction rest with
    | nil => intro favourite n; rfl
    | cons s rest ih =>
        intro favourite n
        have hbeats : s.unplaced.beats favourite.unplaced = s.beats favourite := rfl
        have hties : s.unplaced.ties favourite.unplaced = s.ties favourite := rfl
        rw [List.map_cons]
        unfold bestFrom
        rw [hbeats, hties]
        split
        · exact ih s n
        · split
          · cases coins n with
            | true => exact ih s (n + 1)
            | false => exact ih favourite (n + 1)
          · exact ih favourite n
  cases scored with
  | nil => rfl
  | cons s rest =>
      simp only [List.map_cons, best, hfrom]
      rfl

end Scored

/-- A candidate without its place in the pool. -/
def Candidate.unplaced (c : Candidate) : Candidate :=
  ⟨0, c.track⟩

namespace State

variable {s : State} {plan : Plan} {window used : Nat} {coins : Coins}
variable {offered reordered : List Candidate}

/-- The entries among which the best one is chosen. -/
def contenders (r : Reckoning) (s : State) (plan : Plan) (window : Nat)
    (candidates : List Candidate) : List Scored :=
  let scored := (candidates.filter fun c =>
    s.admits r plan ⟨window, 1 < candidates.length⟩ c.track).map (s.score r plan)
  let clean := scored.filter (·.violation == 0)
  if clean.isEmpty then scored else clean

theorem contenders_map_unplaced (r : Reckoning) (candidates : List Candidate) :
    (s.contenders r plan window candidates).map Scored.unplaced =
      s.contenders r plan window (candidates.map Candidate.unplaced) := by
  have hscored : ((candidates.filter fun c =>
        s.admits r plan ⟨window, 1 < candidates.length⟩ c.track).map (s.score r plan)).map
          Scored.unplaced =
      ((candidates.map Candidate.unplaced).filter fun c =>
        s.admits r plan ⟨window, 1 < (candidates.map Candidate.unplaced).length⟩ c.track).map
          (s.score r plan) := by
    rw [List.length_map, List.filter_map, List.map_map, List.map_map]
    rfl
  have hclean : ∀ scored : List Scored, (scored.filter (·.violation == 0)).map Scored.unplaced =
      (scored.map Scored.unplaced).filter (·.violation == 0) := by
    intro scored
    rw [List.filter_map]
    rfl
  simp only [contenders]
  rw [← hscored, ← hclean, List.isEmpty_map]
  split <;> rfl

variable (plan window) in
theorem contenders_perm (r : Reckoning) (hperm : reordered.Perm offered) :
    (s.contenders r plan window reordered).Perm (s.contenders r plan window offered) := by
  have hscored : ((reordered.filter fun c =>
        s.admits r plan ⟨window, 1 < reordered.length⟩ c.track).map (s.score r plan)).Perm
      ((offered.filter fun c =>
        s.admits r plan ⟨window, 1 < offered.length⟩ c.track).map (s.score r plan)) := by
    rw [hperm.length_eq]
    exact (hperm.filter _).map _
  have hclean := hscored.filter (·.violation == 0)
  simp only [contenders, hclean.isEmpty_eq]
  split
  · exact hscored
  · exact hclean

theorem allNumbers_contenders (htempo : ∀ c ∈ offered, c.track.bpm.isNaN = false) :
    Scored.AllNumbers (s.contenders .exact plan window offered) := by
  intro entry hentry
  obtain ⟨c, hc, rfl⟩ := List.mem_map.mp (mem_choice hentry)
  exact s.isNaN_score plan (htempo c (List.mem_filter.mp hc).1)

/-- From the same tracks in another order the same one is chosen, if no coin was
used for it. -/
theorem choose_reordered
    (hperm : (reordered.map Candidate.unplaced).Perm (offered.map Candidate.unplaced))
    (htempo : ∀ c ∈ offered, c.track.bpm.isNaN = false)
    (huntossed : (s.choose .exact plan window coins used offered).2 = used) (coins' : Coins)
    (used' : Nat) :
    (s.choose .exact plan window coins' used' reordered).1.map Scored.unplaced =
      (s.choose .exact plan window coins used offered).1.map Scored.unplaced := by
  have hcontenders := contenders_perm (s := s) plan window .exact hperm
  rw [← contenders_map_unplaced, ← contenders_map_unplaced] at hcontenders
  have hnumbers : Scored.AllNumbers
      ((s.contenders .exact plan window offered).map Scored.unplaced) := by
    intro entry hentry
    obtain ⟨placed, hplaced, rfl⟩ := List.mem_map.mp hentry
    exact allNumbers_contenders htempo placed hplaced
  have huntossed' : (Scored.best coins used
      ((s.contenders .exact plan window offered).map Scored.unplaced)).2 = used := by
    rw [Scored.best_map_unplaced]
    exact huntossed
  have hbest := Scored.best_perm hnumbers hcontenders huntossed' coins' used'
  rw [Scored.best_map_unplaced, Scored.best_map_unplaced] at hbest
  exact hbest

end State

namespace Filling

variable {plan : Plan} {ads : List Track} {coins coins' : Coins} {fromFallback : Bool}

/-- Filling with times as integers. -/
abbrev onIntegers (plan : Plan) (ads : List Track) (coins : Coins) : Filling :=
  ⟨.exact, plan, ads, coins⟩

/-! ## Passes -/

/-- Two runs that stand alike before the same tracks in two orders. -/
structure Matched (run' run : Run) (reordered offered : List Candidate) : Prop where
  alike : run'.Alike run
  tracks : (reordered.map Candidate.unplaced).Perm (offered.map Candidate.unplaced)
  index : (offered.map (·.index)).Nodup
  index' : (reordered.map (·.index)).Nodup
  tempo : ∀ c ∈ offered, c.track.bpm.isNaN = false

namespace Matched

variable {run run' : Run} {offered reordered : List Candidate}

theorem length_eq (h : Matched run' run reordered offered) :
    reordered.length = offered.length := by
  have hlength := h.tracks.length_eq
  rw [List.length_map, List.length_map] at hlength
  exact hlength

section Turn

variable {window used : Nat} (coins')

/-- The second run chooses something exactly if the first one does, and the same
track, provided that the first one uses no coin for it. -/
theorem choose_eq (h : Matched run' run reordered offered)
    (huntossed : (run.state.choose .exact plan window coins run.coinsUsed offered).2 =
      run.coinsUsed) :
    (run'.state.choose .exact plan window coins' run'.coinsUsed reordered).1.map
        Scored.unplaced =
      (run.state.choose .exact plan window coins run.coinsUsed offered).1.map
        Scored.unplaced := by
  rw [h.alike.state]
  exact State.choose_reordered h.tracks h.tempo huntossed coins' run'.coinsUsed

theorem choose_none (h : Matched run' run reordered offered)
    (hnone : run.state.choose .exact plan window coins run.coinsUsed offered = (none, used)) :
    ∃ used', run'.state.choose .exact plan window coins' run'.coinsUsed reordered =
      (none, used') := by
  have hused : used = run.coinsUsed := (State.choose_eq_none hnone).1
  have hsame := h.choose_eq coins' (by rw [hnone]; exact hused)
  rw [hnone] at hsame
  exact ⟨_, Prod.ext (Option.map_eq_none_iff.mp hsame) rfl⟩

theorem choose_some (h : Matched run' run reordered offered) {chosen : Scored}
    (hsome : run.state.choose .exact plan window coins run.coinsUsed offered = (some chosen, used))
    (hused : used = run.coinsUsed) :
    ∃ chosen' used', run'.state.choose .exact plan window coins' run'.coinsUsed reordered =
      (some chosen', used') ∧ chosen'.unplaced = chosen.unplaced := by
  have hsame := h.choose_eq coins' (by rw [hsome]; exact hused)
  rw [hsome] at hsame
  obtain ⟨chosen', hchosen', hunplaced⟩ := Option.map_eq_some_iff.mp hsame
  exact ⟨chosen', _, Prod.ext hchosen' rfl, hunplaced⟩

end Turn

/-- When both runs take the same track they are matched again. -/
theorem take (h : Matched run' run reordered offered) {chosen chosen' : Scored}
    (hsame : chosen'.unplaced = chosen.unplaced) (hchosen : chosen.candidate ∈ offered)
    (hchosen' : chosen'.candidate ∈ reordered) (used used' : Nat) :
    Matched ((onIntegers plan ads coins').take fromFallback run' chosen' used')
      ((onIntegers plan ads coins).take fromFallback run chosen used)
      (reordered.filter (·.index != chosen'.candidate.index))
      (offered.filter (·.index != chosen.candidate.index)) := by
  have hcandidate : chosen'.candidate.unplaced = chosen.candidate.unplaced :=
    congrArg Scored.candidate hsame
  have htrack : chosen'.candidate.track = chosen.candidate.track := by
    have hbare := congrArg Candidate.track hcandidate
    exact hbare
  have hviolation : chosen'.violation = chosen.violation := by
    have hbare := congrArg Scored.violation hsame
    exact hbare
  have hleft := (perm_cons_filter_index hchosen h.index).map Candidate.unplaced
  have hleft' := (perm_cons_filter_index hchosen' h.index').map Candidate.unplaced
  rw [List.map_cons] at hleft hleft'
  rw [hcandidate] at hleft'
  -- The places of the two tracks may differ, so what is left is compared without.
  constructor
  · exact take_alike (f := onIntegers plan ads coins) h.alike htrack hviolation used used'
  · exact (hleft'.trans (h.tracks.trans hleft.symm)).cons_inv
  · exact h.index.sublist (List.filter_sublist.map _)
  · exact h.index'.sublist (List.filter_sublist.map _)
  · intro c hc
    exact h.tempo c (List.mem_filter.mp hc).1

variable (coins') in
/-- A pass that uses no coin keeps the runs matched. -/
theorem pass (h : Matched run' run reordered offered) (window steps : Nat)
    (huntossed : ((onIntegers plan ads coins).pass fromFallback window steps offered
      run).1.coinsUsed = run.coinsUsed) :
    Matched ((onIntegers plan ads coins').pass fromFallback window steps reordered run').1
      ((onIntegers plan ads coins).pass fromFallback window steps offered run).1
      ((onIntegers plan ads coins').pass fromFallback window steps reordered run').2
      ((onIntegers plan ads coins).pass fromFallback window steps offered run).2 := by
  -- The coins of the whole pass bound those of its first turn and of the rest.
  induction steps generalizing offered reordered run run' with
  | zero => exact h
  | succ steps ih =>
      by_cases hshort : run.state.total < plan.lowerBound
      · have hshort' : run'.state.total < plan.lowerBound := by
          rw [h.alike.state]
          exact hshort
        rcases hturn : run.state.choose .exact plan window coins run.coinsUsed offered with
          ⟨_ | chosen, used⟩
        · obtain ⟨used', hturn'⟩ := h.choose_none coins' hturn
          rw [(onIntegers plan ads coins).pass_of_none fromFallback hshort hturn,
            (onIntegers plan ads coins').pass_of_none fromFallback hshort' hturn']
          exact { h with alike := ⟨h.alike.state, h.alike.turn⟩ }
        · rw [(onIntegers plan ads coins).pass_of_some fromFallback hshort hturn] at huntossed ⊢
          have hused : used = run.coinsUsed :=
            (onIntegers plan ads coins).used_eq_of_pass fromFallback hturn huntossed
          obtain ⟨chosen', used', hturn', hsame⟩ := h.choose_some coins' hturn hused
          rw [(onIntegers plan ads coins').pass_of_some fromFallback hshort' hturn']
          apply ih
          · exact h.take hsame (State.candidate_mem_of_choose hturn)
              (State.candidate_mem_of_choose hturn') used used'
          · rw [huntossed, coinsUsed_take, hused]
      · have hfull' : ¬ run'.state.total < plan.lowerBound := by
          rw [h.alike.state]
          exact hshort
        rw [(onIntegers plan ads coins).pass_of_full fromFallback hshort,
          (onIntegers plan ads coins').pass_of_full fromFallback hfull']
        exact h

end Matched

theorem matched_candidates {run run' : Run} (halike : run'.Alike run) {pool pool' : List Track}
    (hpool : pool'.Perm pool) (htempo : ∀ t ∈ pool, t.bpm.isNaN = false) :
    Matched run' run (candidates pool') (candidates pool) where
  alike := halike
  tracks := by
    have htracks := hpool.map fun t => (⟨0, t⟩ : Candidate)
    rw [← map_track_candidates pool, ← map_track_candidates pool', List.map_map,
      List.map_map] at htracks
    exact htracks
  index := nodup_index_candidates pool
  index' := nodup_index_candidates pool'
  tempo := fun _ hc => htempo _ (mem_candidates hc)

/-! ## Phases -/

section Phases

variable {pool pool' : List Track} (hpool : pool'.Perm pool)
  (htempo : ∀ t ∈ pool, t.bpm.isNaN = false)

include hpool htempo

variable (coins') in
theorem passes_reordered (window count : Nat) {run run' : Run} (halike : run'.Alike run)
    (huntossed : ((onIntegers plan ads coins).passes fromFallback window pool count run).coinsUsed =
      run.coinsUsed) :
    ((onIntegers plan ads coins').passes fromFallback window pool' count run').Alike
      ((onIntegers plan ads coins).passes fromFallback window pool count run) := by
  induction count generalizing run run' with
  | zero => exact halike
  | succ count ih =>
      have hgrows := (onIntegers plan ads coins).le_coinsUsed_pass fromFallback window pool.length
        (candidates pool) run
      have hfirst : ((onIntegers plan ads coins).pass fromFallback window pool.length
          (candidates pool) run).1.coinsUsed = run.coinsUsed := by
        simp only [passes] at huntossed
        split at huntossed
        · exact huntossed
        · have hlater := (onIntegers plan ads coins).le_coinsUsed_passes fromFallback window
            pool count ((onIntegers plan ads coins).pass fromFallback window pool.length
              (candidates pool) run).1
          rw [huntossed] at hlater
          exact Nat.le_antisymm hlater hgrows
      have hmatched := (matched_candidates halike hpool htempo).pass coins' window pool.length
        hfirst
      simp only [passes] at huntossed ⊢
      rw [hpool.length_eq, hmatched.length_eq, hmatched.alike.state]
      split at huntossed
      · rename_i hends
        rw [if_pos hends, if_pos hends]
        exact hmatched.alike
      · rename_i hends
        rw [if_neg hends, if_neg hends]
        exact ih hmatched.alike (huntossed.trans hfirst.symm)

end Phases

variable {pools pools' : Pools}

variable (plan ads coins coins') in
/-- A block that is filled without a coin is filled alike from the same tracks in
another order. -/
theorem filled_reordered (hmusic : pools'.music.Perm pools.music)
    (hfallback : pools'.fallback.Perm pools.fallback)
    (htempo : ∀ t ∈ pools.music ++ pools.fallback, t.bpm.isNaN = false)
    (huntossed : (Sequence.filled (onIntegers plan ads coins) pools).coinsUsed = 0) :
    (Sequence.filled (onIntegers plan ads coins') pools').Alike
      (Sequence.filled (onIntegers plan ads coins) pools) := by
  obtain ⟨htempoMusic, htempoFallback⟩ := List.forall_mem_append.mp htempo
  have hwindow : ∀ {pool pool' : List Track}, pool'.Perm pool →
      (onIntegers plan ads coins').windowOf pool' = (onIntegers plan ads coins).windowOf pool := by
    intro pool pool' hpool
    unfold windowOf
    rw [hpool.length_eq]
  have hown : ((onIntegers plan ads coins).primary pools.music
      (onIntegers plan ads coins).start).coinsUsed = 0 := by
    simp only [Sequence.filled] at huntossed
    split at huntossed
    · have hlater := (onIntegers plan ads coins).le_coinsUsed_passes true
        ((onIntegers plan ads coins).windowOf pools.fallback) pools.fallback 1
        ((onIntegers plan ads coins).primary pools.music (onIntegers plan ads coins).start)
      exact Nat.le_zero.mp (hlater.trans huntossed.le)
    · exact huntossed
  have hprimary : ((onIntegers plan ads coins').primary pools'.music
      (onIntegers plan ads coins').start).Alike
      ((onIntegers plan ads coins).primary pools.music (onIntegers plan ads coins).start) := by
    have hpasses := passes_reordered coins' hmusic htempoMusic
      ((onIntegers plan ads coins).windowOf pools.music) _ ⟨rfl, rfl⟩ hown
    unfold primary
    rw [hwindow hmusic]
    exact hpasses
  simp only [Sequence.filled] at huntossed ⊢
  rw [hprimary.state]
  split at huntossed
  · rename_i hshort
    rw [if_pos hshort, if_pos hshort]
    unfold fallback at huntossed ⊢
    rw [hwindow hfallback]
    exact passes_reordered coins' hfallback htempoFallback _ 1 hprimary (huntossed.trans hown.symm)
  · rename_i hfull
    rw [if_neg hfull, if_neg hfull]
    exact hprimary

end Filling

namespace Sample

/-- Two songs that are alike and fill the block together. -/
def shortSongs : List Track :=
  [.song "b" "Y" 300000, .song "c" "Z" 300000]

/-- A song that fills the block alone comes first. -/
def longFirst : Pools :=
  ⟨.song "a" "X" 600000 :: shortSongs, [], []⟩

/-- The song that fills the block alone comes last. -/
def longLast : Pools :=
  ⟨shortSongs ++ [.song "a" "X" 600000], [], []⟩

end Sample

namespace Sequence

/-- A block that is built without a coin is the same from pools whose music and
fallbacks are in another order, with any coins. -/
theorem build_reordered {plan : Plan} {pools pools' : Pools} {coins : Coins}
    (hads : pools'.ads = pools.ads) (hmusic : pools'.music.Perm pools.music)
    (hfallback : pools'.fallback.Perm pools.fallback)
    (htempo : ∀ t ∈ pools.music ++ pools.fallback, t.bpm.isNaN = false)
    (huntossed : (build .exact plan pools coins).2 = 0) (coins' : Coins) :
    (build .exact plan pools' coins').1 = (build .exact plan pools coins).1 := by
  have hfilled := Filling.filled_reordered plan pools.ads coins coins' hmusic hfallback htempo
    huntossed
  unfold build
  rw [hads]
  exact congrArg (finish .exact plan) hfilled.state

/-- In the other order a coin decides between the two songs that both lose. -/
theorem build_reordered_sample :
    Sample.longLast.ads = Sample.longFirst.ads ∧
      Sample.longLast.music.Perm Sample.longFirst.music ∧
      Sample.longLast.fallback.Perm Sample.longFirst.fallback ∧
      (∀ t ∈ Sample.longFirst.music ++ Sample.longFirst.fallback, t.bpm.isNaN = false) ∧
      (build .exact Sample.plan Sample.longFirst Sample.coins).2 = 0 ∧
      (build .exact Sample.plan Sample.longLast Sample.coins).2 = 1 ∧
      (build .exact Sample.plan Sample.longLast Sample.coins).1 =
        (build .exact Sample.plan Sample.longFirst Sample.coins).1 := by
  have hads : Sample.longLast.ads = Sample.longFirst.ads := rfl
  have hmusic : Sample.longLast.music.Perm Sample.longFirst.music :=
    List.perm_append_singleton _ _
  have hfallback : Sample.longLast.fallback.Perm Sample.longFirst.fallback := List.Perm.nil
  have htempo : ∀ t ∈ Sample.longFirst.music ++ Sample.longFirst.fallback,
      t.bpm.isNaN = false := by decide
  have huntossed : (build .exact Sample.plan Sample.longFirst Sample.coins).2 = 0 := by
    decide +kernel
  have htossed : (build .exact Sample.plan Sample.longLast Sample.coins).2 = 1 := by
    decide +kernel
  exact ⟨hads, hmusic, hfallback, htempo, huntossed, htossed,
    build_reordered hads hmusic hfallback htempo huntossed Sample.coins⟩

end Sequence

end Rundown
