import Rundown.Proofs.Finish
import Rundown.Proofs.Tolerance

/-!
# Which blocks are empty

At the start of a block none of the hard conditions refuses a track: the first
placement always fits, nothing was played that could be repeated, and no quota
has a share yet.  A pool with any music therefore contributes to a block that
has nothing so far, provided that nothing is not already enough.  Under every
reckoning a block is empty if and only if there is no music or its lower bound
is not positive, and the trim does not change that.
-/

namespace Rundown

/-- The first placement is refused to no track. -/
theorem State.admits_start (r : Reckoning) (plan : Plan) (limits : Limits) (t : Track) :
    (State.start plan).admits r plan limits t = true := by
  have hfits : (State.start plan).fits r plan t = true := rfl
  have hquota : (State.start plan).exceedsQuota plan t = false := rfl
  unfold admits
  rw [hfits, hquota]
  simp [isImmediateRepeat, isRecent, State.start]

namespace Filling

variable {f : Filling} (fromFallback : Bool) {pool : List Track} {run : Run}

/-! ## Blocks that stay empty -/

/-- Nothing happens without tracks, nor when nothing is already enough. -/
theorem passes_idle (hidle : pool = [] ∨ f.plan.lowerBound ≤ 0) (count : Nat)
    (hstart : run.state = State.start f.plan) :
    (f.passes fromFallback (f.windowOf pool) pool count run).state = State.start f.plan := by
  apply passes_invariant (P := fun run => run.state = State.start f.plan) _ count hstart
  intro run c used hrun htake
  exfalso
  rcases hidle with hnil | hbound
  · have hknown := htake.known
    rw [hnil] at hknown
    contradiction
  · have hshort : run.state.total < f.plan.lowerBound := htake.short
    have hzero : run.state.total = 0 := by rw [hrun]; rfl
    omega

/-! ## Blocks that grow -/

theorem take_ne_nil (run : Run) (chosen : Scored) (used : Nat) :
    (f.take fromFallback run chosen used).state.placements ≠ [] := by
  apply takeBreak_invariant fromFallback (P := fun s => s.placements ≠ [])
  · intro s t _ _ _
    exact List.append_ne_nil_of_right_ne_nil _ (List.cons_ne_nil _ _)
  · exact List.append_ne_nil_of_right_ne_nil _ (List.cons_ne_nil _ _)

theorem passes_keep (count : Nat) (hsome : run.state.placements ≠ []) :
    (f.passes fromFallback (f.windowOf pool) pool count run).state.placements ≠ [] :=
  passes_invariant (P := fun run => run.state.placements ≠ [])
    (fun run c used _ _ =>
      take_ne_nil fromFallback run (run.state.score f.reckoning f.plan c) used) count hsome

/-- The first pass over a pool that is not empty takes something for an empty block. -/
theorem pass_ne_nil (hpool : pool ≠ []) (hshort : 0 < f.plan.lowerBound)
    (hstart : run.state = State.start f.plan) :
    (f.pass fromFallback (f.windowOf pool) pool.length (candidates pool)
      run).1.state.placements ≠ [] := by
  obtain ⟨t, rest, rfl⟩ := List.exists_cons_of_ne_nil hpool
  have htotal : run.state.total < f.plan.lowerBound := by
    rw [hstart]
    exact hshort
  rw [List.length_cons]
  unfold pass
  rw [if_pos htotal]
  split
  · -- Nobody was chosen, so the very first candidate was refused.
    rename_i used hnone
    have hfirst : (⟨0, t⟩ : Candidate) ∈ candidates (t :: rest) := by
      unfold candidates
      rw [List.mapIdx_cons]
      exact List.mem_cons_self
    have hrefused := (State.choose_eq_none hnone).2 _ hfirst
    rw [hstart, State.admits_start] at hrefused
    contradiction
  · rename_i chosen used hsome
    apply pass_invariant (P := fun run => run.state.placements ≠ [])
    · intro run c used _ _
      exact take_ne_nil fromFallback run _ used
    · intro c hc
      exact mem_candidates (List.mem_filter.mp hc).1
    · exact take_ne_nil fromFallback run chosen used

theorem passes_ne_nil (hpool : pool ≠ []) (hshort : 0 < f.plan.lowerBound) {count : Nat}
    (hcount : 0 < count) (hstart : run.state = State.start f.plan) :
    (f.passes fromFallback (f.windowOf pool) pool count run).state.placements ≠ [] := by
  obtain ⟨more, rfl⟩ := Nat.exists_eq_succ_of_ne_zero (Nat.pos_iff_ne_zero.mp hcount)
  have hfirst := pass_ne_nil fromFallback hpool hshort hstart
  simp only [passes]
  split
  · exact hfirst
  · exact passes_keep fromFallback more hfirst

/-! ## Both phases -/

variable {pools : Pools}

/-- Neither phase places anything when there is nothing to place or to fill. -/
theorem filled_idle
    (hidle : (pools.music = [] ∧ pools.fallback = []) ∨ f.plan.lowerBound ≤ 0) :
    (Sequence.filled f pools).state = State.start f.plan := by
  have hown : (f.primary pools.music f.start).state = State.start f.plan :=
    passes_idle false (hidle.imp_left (·.1)) _ rfl
  unfold Sequence.filled
  simp only
  split
  · exact passes_idle true (hidle.imp_left (·.2)) _ hown
  · exact hown

/-- The own music fills a block, and the fallbacks take nothing away. -/
theorem filled_ne_nil_of_music (hshort : 0 < f.plan.lowerBound) (hmusic : pools.music ≠ []) :
    (Sequence.filled f pools).state.placements ≠ [] := by
  have hcount : 0 < if f.plan.allowRepeats then greatestPasses else 1 := by
    split <;> decide
  have hown : (f.primary pools.music f.start).state.placements ≠ [] :=
    passes_ne_nil false hmusic hshort hcount rfl
  unfold Sequence.filled
  simp only
  split
  · exact passes_keep true _ hown
  · exact hown

/-- Without own music the fallbacks get their turn. -/
theorem filled_ne_nil_of_fallback (hshort : 0 < f.plan.lowerBound) (hmusic : pools.music = [])
    (hfallback : pools.fallback ≠ []) : (Sequence.filled f pools).state.placements ≠ [] := by
  have hown : (f.primary pools.music f.start).state = State.start f.plan :=
    passes_idle false (Or.inl hmusic) _ rfl
  have htotal : (f.primary pools.music f.start).state.total < f.plan.lowerBound := by
    rw [hown]
    exact hshort
  unfold Sequence.filled
  simp only [if_pos htotal]
  exact passes_ne_nil true hfallback hshort Nat.one_pos hown

/-- What filling returns is empty exactly if there is no music or nothing is enough. -/
theorem filled_eq_nil_iff (f : Filling) (pools : Pools) :
    (Sequence.filled f pools).state.placements = [] ↔
      (pools.music = [] ∧ pools.fallback = []) ∨ f.plan.lowerBound ≤ 0 := by
  constructor
  · intro hnil
    by_cases hbound : f.plan.lowerBound ≤ 0
    · exact Or.inr hbound
    · have hshort := Int.not_le.mp hbound
      have hmusic : pools.music = [] :=
        Decidable.of_not_not fun hsome => filled_ne_nil_of_music hshort hsome hnil
      have hfallback : pools.fallback = [] :=
        Decidable.of_not_not fun hsome => filled_ne_nil_of_fallback hshort hmusic hsome hnil
      exact Or.inl ⟨hmusic, hfallback⟩
  · intro hidle
    rw [filled_idle hidle]
    rfl

end Filling

namespace Sequence

/-- The block of any documents is empty if and only if there is no music at all,
or it lasts a minute and may be missed by the whole minute. -/
theorem build_ofDocuments_eq_nil_iff (r : Reckoning) (rules sequence : Document) (year : Int)
    (pools : Pools) (coins : Coins) :
    let plan := Plan.ofDocuments rules sequence year
    (build r plan pools coins).1.placements = [] ↔
      (pools.music = [] ∧ pools.fallback = []) ∨
        (plan.target = Duration.minute ∧ plan.accuracy = Duration.minute) := by
  intro plan
  rw [← Plan.lowerBound_ofDocuments_nonpos_iff,
    ← Filling.filled_eq_nil_iff ⟨r, plan, pools.ads, coins⟩ pools]
  exact finish_eq_nil_iff r plan _

/-- Music alone does not keep a block from being empty: nothing at all misses one
minute by one minute, which its documents may accept. -/
theorem not_forall_build_eq_nil_iff :
    ¬ ∀ (rules sequence : Document) (year : Int) (pools : Pools) (coins : Coins),
      pools.AllTimed →
        ((build .exact (Plan.ofDocuments rules sequence year) pools coins).1.placements = [] ↔
          pools.music = [] ∧ pools.fallback = []) := by
  intro h
  have hsample := h ⟨[("targetMinutes", .int 1), ("durationAccuracy", .int 60)]⟩ .empty 2026
    ⟨[.song "a" "X" 60000], [], []⟩ Sample.coins (by decide)
  have hempty := hsample.mp (by decide +kernel)
  exact List.cons_ne_nil _ _ hempty.1

end Sequence

end Rundown
