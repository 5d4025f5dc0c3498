import Rundown.Proofs.Finish
import Rundown.Proofs.Turns

/-!
# Why a phase stops short

A phase that ends with the block short of its lower bound has nothing left that it
could place.  A single pass leaves the candidates that it did not take, and each
of them is refused by a hard condition in the final state.  Repeated passes end
either with a pass that takes nothing, and then all tracks of the pool are
refused, or with the hundredth one.

No track is left over for its separation: what is refused here would be refused
under any rules of separation.  The starting state is arbitrary; it need not be
one that the building of a block reaches.
-/

namespace Rundown

/-- The same plan with other rules of separation. -/
def Plan.withSeparation (plan : Plan) (enabled : Bool) (gaps : List (Attribute × Int)) : Plan :=
  { plan with separationEnabled := enabled, separation := gaps }

/-- The hard conditions do not ask for the separation. -/
theorem State.refuses_withSeparation_iff {r : Reckoning} {s : State} {plan : Plan}
    {limits : Limits} {t : Track} (enabled : Bool) (gaps : List (Attribute × Int)) :
    s.Refuses r (plan.withSeparation enabled gaps) limits t ↔ s.Refuses r plan limits t := by
  rw [refuses_iff, refuses_iff]
  exact Iff.rfl

namespace Filling

variable (f : Filling)

/-- Every candidate offered is refused by a hard condition, whatever the rules of
separation are. -/
def Stuck (window : Nat) (s : State) (offered : List Candidate) : Prop :=
  ∀ c ∈ offered, ∀ enabled gaps,
    s.Refuses f.reckoning (f.plan.withSeparation enabled gaps) ⟨window, 1 < offered.length⟩ c.track

/-- A phase of a single pass leaves only what it cannot take: the candidates of the
pool are those that it placed and those that are refused in the end. -/
def LeavesStuck (pool : List Track) (run last : Run) : Prop :=
  last.state.total < f.plan.lowerBound →
    ∃ taken left : List Candidate, (taken ++ left).Perm (candidates pool) ∧
      Placement.songs last.state.placements =
        Placement.songs run.state.placements ++ taken.map (·.track) ∧
      f.Stuck (f.windowOf pool) last.state left

/-- One pass of the own phase over its whole pool. -/
def wholePass (pool : List Track) (run : Run) : Run :=
  (f.pass false (f.windowOf pool) pool.length (candidates pool) run).1

/-- So many passes over a pool, each of which places a song, lead from one run to
another. -/
inductive Rounds (pool : List Track) : Nat → Run → Run → Prop
  | none (run : Run) : Rounds pool 0 run run
  | more {count : Nat} {run last : Run}
      (places : (Placement.songs run.state.placements).length <
        (Placement.songs (f.wholePass pool run).state.placements).length)
      (rest : Rounds pool count (f.wholePass pool run) last) : Rounds pool (count + 1) run last

variable {f} {fromFallback : Bool} {window : Nat} {offered : List Candidate} {run : Run}

/-! ## One pass -/

theorem Stuck.perm {s : State} {others : List Candidate} (h : f.Stuck window s offered)
    (hperm : offered.Perm others) : f.Stuck window s others := by
  intro c hc
  rw [← hperm.length_eq]
  exact h c (hperm.mem_iff.mpr hc)

/-- Where nothing is chosen, everything that is offered is refused. -/
theorem stuck_of_choose {s : State} {tossed used : Nat}
    (h : s.choose f.reckoning f.plan window f.coins tossed offered = (none, used)) :
    f.Stuck window s offered := by
  intro c hc enabled gaps
  rw [State.refuses_withSeparation_iff, State.refuses_iff]
  exact (State.choose_eq_none h).2 c hc

/-- A pass that may take as many steps as it has candidates, and stops short, ends where
nothing is chosen any more. -/
theorem choose_of_pass (steps : Nat) (hsteps : offered.length ≤ steps)
    (hshort : (f.pass fromFallback window steps offered run).1.state.total <
      f.plan.lowerBound) :
    ((f.pass fromFallback window steps offered run).1.state.choose f.reckoning f.plan window
      f.coins (f.pass fromFallback window steps offered run).1.coinsUsed
      (f.pass fromFallback window steps offered run).2).1 = none := by
  -- On the steps; each one lays a candidate aside, so they do not run out before these do.
  induction steps generalizing offered run with
  | zero =>
      obtain rfl : offered = [] := List.length_eq_zero_iff.mp (Nat.le_zero.mp hsteps)
      rfl
  | succ steps ih =>
      by_cases hbelow : run.state.total < f.plan.lowerBound
      · rcases hturn : run.state.choose f.reckoning f.plan window f.coins run.coinsUsed offered with
          ⟨_ | chosen, used⟩
        · rw [f.pass_of_none fromFallback hbelow hturn, (State.choose_eq_none hturn).1]
          exact congrArg Prod.fst hturn
        · rw [f.pass_of_some fromFallback hbelow hturn] at hshort ⊢
          exact ih (Nat.le_of_lt_succ (Nat.lt_of_lt_of_le (length_filter_index_lt hturn) hsteps))
            hshort
      · rw [f.pass_of_full fromFallback hbelow] at hshort
        exact absurd hshort hbelow

/-- What such a pass leaves is refused. -/
theorem stuck_of_pass (steps : Nat) (hsteps : offered.length ≤ steps)
    (hshort : (f.pass fromFallback window steps offered run).1.state.total <
      f.plan.lowerBound) :
    f.Stuck window (f.pass fromFallback window steps offered run).1.state
      (f.pass fromFallback window steps offered run).2 :=
  stuck_of_choose (Prod.ext (choose_of_pass steps hsteps hshort) rfl)

theorem length_candidates (pool : List Track) : (candidates pool).length = pool.length := by
  unfold candidates
  rw [List.length_mapIdx]

/-- A single pass over a pool that stops short leaves only what it cannot take. -/
theorem leavesStuck_passes_one (fromFallback : Bool) (pool : List Track) (run : Run) :
    f.LeavesStuck pool run (f.passes fromFallback (f.windowOf pool) pool 1 run) := by
  -- After the only pass it makes no difference whether another one would be due.
  simp only [passes, ite_self]
  intro hshort
  obtain ⟨taken, hsongs, hperm⟩ := f.pass_takes fromFallback (f.windowOf pool) pool.length run
    (nodup_index_candidates pool)
  exact ⟨taken, _, hperm, hsongs, stuck_of_pass pool.length (length_candidates pool).le hshort⟩

/-! ## Several passes -/

/-- Passes that stop short have all placed something, or the last of them was refused
the whole pool. -/
theorem rounds_or_stuck_of_passes (pool : List Track) (count : Nat) (run : Run)
    (hshort : (f.passes false (f.windowOf pool) pool count run).state.total <
      f.plan.lowerBound) :
    f.Rounds pool count run (f.passes false (f.windowOf pool) pool count run) ∨
      f.Stuck (f.windowOf pool) (f.passes false (f.windowOf pool) pool count run).state
        (candidates pool) := by
  induction count generalizing run with
  | zero => exact Or.inl (.none run)
  | succ count ih =>
      obtain ⟨taken, hsongs, hperm⟩ := f.pass_takes false (f.windowOf pool) pool.length run
        (nodup_index_candidates pool)
      have hlength := hperm.length_eq
      rw [List.length_append, length_candidates] at hlength
      simp only [passes] at hshort ⊢
      split at hshort
      · rename_i hdone
        rw [if_pos hdone]
        -- The block is short, so the passes ended because this one took nothing.
        have hall : (f.pass false (f.windowOf pool) pool.length (candidates pool) run).2.length =
            pool.length := by
          simpa [Int.not_le.mpr hshort] using hdone
        obtain rfl : taken = [] := List.length_eq_zero_iff.mp (by omega)
        exact Or.inr ((stuck_of_pass pool.length (length_candidates pool).le hshort).perm hperm)
      · rename_i hmore
        rw [if_neg hmore]
        refine (ih _ hshort).imp_left fun hrest => .more ?_ hrest
        have hsome : (f.pass false (f.windowOf pool) pool.length (candidates pool) run).2.length ≠
            pool.length := by
          simp only [Bool.or_eq_true, decide_eq_true_eq, not_or] at hmore
          exact hmore.1
        unfold wholePass
        rw [hsongs, List.length_append, List.length_map]
        omega

/-- A phase that stops short is stuck.  What a single pass leaves is refused in the
final state, and so is the whole pool after repeated passes, unless a hundred of
them were made and each placed a song. -/
theorem stuck_of_short (f : Filling) (pool : List Track) (run : Run) :
    (f.plan.allowRepeats = false → f.LeavesStuck pool run (f.primary pool run)) ∧
      f.LeavesStuck pool run (f.fallback pool run) ∧
      (f.plan.allowRepeats = true →
        (f.primary pool run).state.total < f.plan.lowerBound →
          f.Rounds pool greatestPasses run (f.primary pool run) ∨
            f.Stuck (f.windowOf pool) (f.primary pool run).state (candidates pool)) := by
  refine ⟨?_, leavesStuck_passes_one true pool run, ?_⟩
  · intro hoff
    unfold primary
    rw [if_neg (by rw [hoff]; decide)]
    exact leavesStuck_passes_one false pool run
  · intro hon
    unfold primary
    rw [if_pos hon]
    exact rounds_or_stuck_of_passes pool greatestPasses run

end Filling

namespace Sample

/-- A song of five minutes and a longer one, which do not both fit into ten. -/
def misfits : List Track :=
  [.song "a" "X" 300000, .song "b" "Y" 400000]

/-- Filling ten minutes, with repeats or without. -/
def filling (allowed : Bool) : Filling :=
  ⟨.exact, { plan with allowRepeats := allowed }, [], coins⟩

end Sample

namespace Filling

/-- The longer song is placed first.  Without repeats the shorter one is left and does
not fit, and with them neither does. -/
theorem stuck_of_short_sample :
    let single := Sample.filling false
    let repeated := Sample.filling true
    let once := single.primary Sample.misfits single.start
    let again := repeated.primary Sample.misfits repeated.start
    once.state.total < single.plan.lowerBound ∧ again.state.total < repeated.plan.lowerBound ∧
      (∃ taken left : List Candidate, (taken ++ left).Perm (candidates Sample.misfits) ∧
        Placement.songs once.state.placements =
          Placement.songs single.start.state.placements ++ taken.map (·.track) ∧
        single.Stuck (single.windowOf Sample.misfits) once.state left) ∧
      (repeated.Rounds Sample.misfits greatestPasses repeated.start again ∨
        repeated.Stuck (repeated.windowOf Sample.misfits) again.state
          (candidates Sample.misfits)) := by
  have honce : ((Sample.filling false).primary Sample.misfits
      (Sample.filling false).start).state.total < (Sample.filling false).plan.lowerBound := by
    decide +kernel
  have hagain : ((Sample.filling true).primary Sample.misfits
      (Sample.filling true).start).state.total < (Sample.filling true).plan.lowerBound := by
    decide +kernel
  obtain ⟨hsingle, _, _⟩ :=
    stuck_of_short (Sample.filling false) Sample.misfits (Sample.filling false).start
  obtain ⟨_, _, hrepeated⟩ :=
    stuck_of_short (Sample.filling true) Sample.misfits (Sample.filling true).start
  exact ⟨honce, hagain, hsingle rfl honce, hrepeated rfl hagain⟩

end Filling

end Rundown
