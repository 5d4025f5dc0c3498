import Rundown.Proofs.Choice
import Rundown.Sequence.Build

/-!
# How a block grows

Whatever the plan, the pools and the coins, a block under construction changes
in two ways only: a candidate that the choice admits is placed as music, or an
interstitial that fits is placed in a break.  `Filling.Grown` collects the
states that such steps lead to, and the block that filling returns is one of
them, so that an invariant of the two steps holds of every block.

The steps forget which candidates of a pass are used up and how many
interstitials a break has offered; `pass_invariant` and `passes_invariant` keep
whole turns for what depends on those.  A phase appends placements of its own
and leaves the earlier ones alone.
-/

namespace Rundown

/-- The pool of a phase: the block's own tracks, or those of the fallbacks. -/
def Pools.source (pools : Pools) : Bool → List Track
  | false => pools.music
  | true => pools.fallback

namespace Filling

variable (f : Filling)

/-- A track of the pool may be placed now: the block is short of its lower bound
and the hard conditions hold of the track. -/
structure MayTake (pool : List Track) (s : State) (t : Track) : Prop where
  short : s.total < f.plan.lowerBound
  known : t ∈ pool
  admitted : ∃ noRepeat, s.admits f.reckoning f.plan ⟨f.windowOf pool, noRepeat⟩ t = true

/-- One placement in a phase. -/
inductive Step (fromFallback : Bool) (pool : List Track) : State → State → Prop
  /-- Music is placed, and noted if it violates the separation. -/
  | music {s : State} {t : Track} (take : f.MayTake pool s t) :
      Step fromFallback pool s
        ({ s with relaxed := s.relaxed || s.violation f.reckoning f.plan t != 0 }.placeMusic
          f.reckoning f.plan t fromFallback)
  /-- An interstitial of a break is placed. -/
  | ad {s : State} {t : Track} (known : t ∈ f.ads)
      (fits : s.adFits f.reckoning f.plan t = true) :
      Step fromFallback pool s (s.placeAd f.reckoning t fromFallback)

/-- What a step from one state to the next appends to the placements. -/
structure Appends (fromFallback : Bool) (pool : List Track) (s s' : State) (p : Placement) :
    Prop where
  placements : s'.placements = s.placements ++ [p]
  total : s'.total = p.endsAt
  starts : p.startsAt = s.total
  ends : p.endsAt = f.reckoning.hold (s.total + p.track.duration)
  phase : p.fromFallback = fromFallback
  origin : p.isAd = false ∧ f.MayTake pool s p.track ∨
    p.isAd = true ∧ p.track ∈ f.ads ∧ s.adFits f.reckoning f.plan p.track = true

/-- Every step appends one placement, at the running total. -/
theorem Step.appends {f : Filling} {fromFallback : Bool} {pool : List Track} {s s' : State}
    (h : f.Step fromFallback pool s s') : ∃ p, f.Appends fromFallback pool s s' p := by
  cases h with
  | music take => exact ⟨_, rfl, rfl, rfl, rfl, rfl, Or.inl ⟨rfl, take⟩⟩
  | ad known fits => exact ⟨_, rfl, rfl, rfl, rfl, rfl, Or.inr ⟨rfl, known, fits⟩⟩

/-- Music is taken only where it fits: first of all, or within the upper bound. -/
theorem MayTake.fits {f : Filling} {pool : List Track} {s : State} {t : Track}
    (h : f.MayTake pool s t) :
    s.placements = [] ∨ f.reckoning.hold (s.total + t.duration) ≤ f.plan.upperBound := by
  obtain ⟨noRepeat, hadmits⟩ := h.admitted
  simpa [State.fits, State.adFits] using (State.admits_iff.mp hadmits).1

/-- What may be taken was not played within the window, if there is one. -/
theorem MayTake.not_isRecent {f : Filling} {pool : List Track} {s : State} {t : Track}
    (h : f.MayTake pool s t) (hwindow : 0 < f.windowOf pool) :
    s.isRecent (f.windowOf pool) t = false := by
  obtain ⟨noRepeat, hadmits⟩ := h.admitted
  apply Bool.eq_false_iff.mpr
  intro hrecent
  exact (State.admits_iff.mp hadmits).2.2.1 ⟨hwindow, hrecent⟩

/-- What may be taken exceeds no quota. -/
theorem MayTake.not_exceedsQuota {f : Filling} {pool : List Track} {s : State} {t : Track}
    (h : f.MayTake pool s t) : s.exceedsQuota f.plan t = false := by
  obtain ⟨noRepeat, hadmits⟩ := h.admitted
  exact (State.admits_iff.mp hadmits).2.2.2

/-- The states that a block passes through while it is filled. -/
inductive Grown (pools : Pools) : State → Prop
  | start : Grown pools (State.start f.plan)
  | step (fromFallback : Bool) {s s' : State} (grown : Grown pools s)
      (next : f.Step fromFallback (pools.source fromFallback) s s') : Grown pools s'

/-! ## Whole turns -/

section Turns

variable {f} {P : Run → Prop} {fromFallback : Bool} {pool : List Track}

/-- What every turn keeps is kept by a pass over candidates of the pool. -/
theorem pass_invariant
    (hturn : ∀ (run : Run) (c : Candidate) (used : Nat), P run →
      f.MayTake pool run.state c.track →
      P (f.take fromFallback run (run.state.score f.reckoning f.plan c) used))
    (steps : Nat) {candidates : List Candidate} {run : Run}
    (hpool : ∀ c ∈ candidates, c.track ∈ pool) (hrun : P run) :
    P (f.pass fromFallback (f.windowOf pool) steps candidates run).1 := by
  induction steps generalizing candidates run with
  | zero => exact hrun
  | succ steps ih =>
      unfold pass
      split
      · rename_i hshort
        split
        · rename_i used hnone
          -- No coin was spent either, so the run is literally the same.
          rw [(State.choose_eq_none hnone).1]
          exact hrun
        · rename_i chosen used hsome
          obtain ⟨c, hc, hadmits, rfl⟩ := State.choose_eq_some hsome
          apply ih
          · intro other hother
            exact hpool other (List.mem_filter.mp hother).1
          · exact hturn run c used hrun ⟨hshort, hpool c hc, _, hadmits⟩
      · exact hrun

theorem mem_candidates {c : Candidate} (h : c ∈ candidates pool) : c.track ∈ pool := by
  unfold candidates at h
  obtain ⟨index, hindex, rfl⟩ := List.mem_mapIdx.mp h
  exact List.getElem_mem hindex

/-- What every turn keeps is kept by all passes over a pool. -/
theorem passes_invariant
    (hturn : ∀ (run : Run) (c : Candidate) (used : Nat), P run →
      f.MayTake pool run.state c.track →
      P (f.take fromFallback run (run.state.score f.reckoning f.plan c) used))
    (count : Nat) {run : Run} (hrun : P run) :
    P (f.passes fromFallback (f.windowOf pool) pool count run) := by
  induction count generalizing run with
  | zero => exact hrun
  | succ count ih =>
      have hafter := pass_invariant hturn pool.length (fun _ h => mem_candidates h) hrun
      simp only [passes]
      split
      · exact hafter
      · exact ih hafter

/-- What every turn of either phase keeps is kept until the block is filled. -/
theorem filled_invariant {pools : Pools} (hstart : P f.start)
    (hturn : ∀ (fromFallback : Bool) (run : Run) (c : Candidate) (used : Nat), P run →
      f.MayTake (pools.source fromFallback) run.state c.track →
      P (f.take fromFallback run (run.state.score f.reckoning f.plan c) used)) :
    P (Sequence.filled f pools) := by
  have hown : P (f.primary pools.music f.start) := passes_invariant (hturn false) _ hstart
  unfold Sequence.filled
  simp only
  split
  · exact passes_invariant (hturn true) _ hown
  · exact hown

end Turns

/-! ## Breaks -/

section Breaks

variable {f} {P : State → Prop} (fromFallback : Bool)

/-- A break places interstitials that fit and nothing else. -/
theorem offer_invariant
    (hplace : ∀ (s : State) (t : Track), P s → t ∈ f.ads →
      s.adFits f.reckoning f.plan t = true → P (s.placeAd f.reckoning t fromFallback))
    (count : Nat) {run : Run} (h : P run.state) : P (f.offer fromFallback count run).state := by
  induction count generalizing run with
  | zero => exact h
  | succ count ih =>
      unfold offer
      split
      · exact h
      · rename_i ad had
        apply ih
        split
        · rename_i hfits
          exact hplace run.state ad h (List.mem_of_getElem? had) hfits
        · exact h

/-- Whether or not a break is due, what its interstitials keep is kept. -/
theorem takeBreak_invariant
    (hplace : ∀ (s : State) (t : Track), P s → t ∈ f.ads →
      s.adFits f.reckoning f.plan t = true → P (s.placeAd f.reckoning t fromFallback))
    {run : Run} (h : P run.state) : P (f.takeBreak fromFallback run).state := by
  unfold takeBreak
  split
  · exact offer_invariant fromFallback hplace _ h
  · exact h

end Breaks

/-! ## What a phase adds -/

section Additions

variable (fromFallback : Bool)

/-- A turn appends placements of its phase. -/
theorem exists_append_take (run : Run) (chosen : Scored) (used : Nat) :
    ∃ more, (f.take fromFallback run chosen used).state.placements =
        run.state.placements ++ more ∧ ∀ p ∈ more, p.fromFallback = fromFallback := by
  apply takeBreak_invariant fromFallback (P := fun s => ∃ more,
    s.placements = run.state.placements ++ more ∧ ∀ p ∈ more, p.fromFallback = fromFallback)
  · rintro s t ⟨more, hmore, hphase⟩ _ _
    refine ⟨more ++ [⟨t, true, fromFallback, s.total, f.reckoning.hold (s.total + t.duration)⟩],
      ?_, ?_⟩
    · rw [← List.append_assoc, ← hmore]
      rfl
    · intro p hp
      rcases List.mem_append.mp hp with hold | hnew
      · exact hphase p hold
      · rw [List.mem_singleton.mp hnew]
  · exact ⟨[_], rfl, fun p hp => by rw [List.mem_singleton.mp hp]⟩

/-- The passes over a pool append placements of their phase. -/
theorem exists_append_passes (pool : List Track) (count : Nat) (run : Run) :
    ∃ more, (f.passes fromFallback (f.windowOf pool) pool count run).state.placements =
        run.state.placements ++ more ∧ ∀ p ∈ more, p.fromFallback = fromFallback := by
  apply passes_invariant (P := fun later => ∃ more,
    later.state.placements = run.state.placements ++ more ∧
      ∀ p ∈ more, p.fromFallback = fromFallback)
  · rintro later c used ⟨more, hmore, hphase⟩ _
    obtain ⟨new, hnew, hsame⟩ := f.exists_append_take fromFallback later
      (later.state.score f.reckoning f.plan c) used
    refine ⟨more ++ new, ?_, List.forall_mem_append.mpr ⟨hphase, hsame⟩⟩
    rw [hnew, hmore, List.append_assoc]
  · exact ⟨[], (List.append_nil _).symm, fun _ hp => absurd hp List.not_mem_nil⟩

end Additions

/-! ## Single placements -/

section Placements

variable {f} {pools : Pools} (fromFallback : Bool)

/-- A turn is one placement of music and a break that may follow. -/
theorem grown_take {run : Run} {c : Candidate} (used : Nat) (h : f.Grown pools run.state)
    (htake : f.MayTake (pools.source fromFallback) run.state c.track) :
    f.Grown pools
      (f.take fromFallback run (run.state.score f.reckoning f.plan c) used).state := by
  have hplaced := Grown.step fromFallback h (.music htake)
  apply takeBreak_invariant fromFallback (P := f.Grown pools) _ hplaced
  intro s t hs hknown hfits
  exact .step fromFallback hs (.ad hknown hfits)

end Placements

/-- The block that filling returns has grown by single placements. -/
theorem grown_filled (pools : Pools) : f.Grown pools (Sequence.filled f pools).state :=
  filled_invariant (P := fun run => f.Grown pools run.state) .start
    fun fromFallback _ _ used h htake => grown_take fromFallback used h htake

end Filling

end Rundown
