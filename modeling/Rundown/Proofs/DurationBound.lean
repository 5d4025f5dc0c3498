import Mathlib.Algebra.Order.Group.Unbundled.Int
import Rundown.Proofs.Finish
import Rundown.Proofs.Tolerance

/-!
# The length of a finished block

Only the first placement of a block is excused from the upper bound, and only an
empty block or a single song makes use of the excuse: as soon as anything else
is placed, the total is within the bound.  The trim therefore meets a total that
is at most the accuracy above the target, and since it only ever brings the
total nearer, what it leaves is less than the accuracy off.
-/

namespace Rundown

/-- Placements keep to the upper bound of a plan.  Two blocks are excused: the
empty one, and a single song that is longer than the bound. -/
def Plan.Bounds (plan : Plan) (placements : List Placement) (total : Int) : Prop :=
  placements = [] ∨
    (∃ p, placements = [p] ∧ p.isMusic = true ∧ plan.upperBound < p.track.duration) ∨
      total ≤ plan.upperBound

namespace Filling

variable {f : Filling} {pools : Pools} {s : State}

/-- A block keeps to the upper bound at every moment of its growth. -/
theorem Grown.bounds (h : f.Grown pools s) (hexact : f.reckoning = .exact) :
    f.plan.Bounds s.placements s.total := by
  cases h with
  | start => exact Or.inl rfl
  | step fromFallback grown next =>
      obtain ⟨p, hp⟩ := next.appends
      have hends := hp.ends
      rw [hexact, Reckoning.hold_exact] at hends
      rw [hp.placements, hp.total, hends]
      rcases hp.origin with ⟨hmusic, htake⟩ | ⟨_, _, hfits⟩
      · rcases htake.fits with hnil | hfits
        · -- The first placement: nothing was placed, so the total is its duration.
          have hzero := grown.coherent.total_eq
          rw [hnil] at hzero
          rw [hzero, hnil]
          by_cases hlong : f.plan.upperBound < p.track.duration
          · exact Or.inr (Or.inl ⟨p, rfl, by simp [Placement.isMusic, hmusic], hlong⟩)
          · right
            right
            simpa [Placement.total, Placement.totalFrom] using hlong
        · rw [hexact, Reckoning.hold_exact] at hfits
          exact Or.inr (Or.inr hfits)
      · -- An interstitial is never excused, not even next to an overlong song.
        simp only [State.adFits, hexact, Reckoning.hold_exact, decide_eq_true_eq] at hfits
        exact Or.inr (Or.inr hfits)

/-- Music is placed only while the block is short of its lower bound. -/
theorem Grown.startsAt_lt (h : f.Grown pools s) :
    ∀ p ∈ s.placements, p.isMusic = true → p.startsAt < f.plan.lowerBound := by
  induction h with
  | start => simp [State.start]
  | step fromFallback grown next ih =>
      obtain ⟨p, hp⟩ := next.appends
      rw [hp.placements]
      intro q hq hmusic
      rcases List.mem_append.mp hq with hold | hnew
      · exact ih q hold hmusic
      · rw [List.mem_singleton.mp hnew] at hmusic ⊢
        rw [hp.starts]
        rcases hp.origin with ⟨_, htake⟩ | ⟨had, _⟩
        · exact htake.short
        · simp [Placement.isMusic, had] at hmusic

end Filling

namespace Sequence

variable {plan : Plan} {s : State}

/-- A block from which something is removed has several songs, so it is not
excused from the bound. -/
theorem total_le_of_removes {earlier later : List Placement} {removed : Placement}
    (hbounds : plan.Bounds s.placements s.total)
    (h : Trim.Removes plan.target s.placements earlier removed later) :
    s.total ≤ plan.upperBound := by
  have hseveral := h.checked.2.1
  rcases hbounds with hnil | ⟨p, hone, _, _⟩ | htotal
  · simp [hnil, Placement.music] at hseveral
  · have hlength := List.length_filter_le Placement.isMusic [p]
    rw [hone] at hseveral
    unfold Placement.music at hseveral
    simp only [List.length_singleton] at hlength
    omega
  · exact htotal

/-- Finishing keeps a block within the bound, since a removal shortens it. -/
theorem finish_bounds (hs : s.Coherent .exact)
    (htimed : ∀ p ∈ s.placements, 0 < p.track.duration)
    (hbounds : plan.Bounds s.placements s.total) :
    plan.Bounds (finish .exact plan s).placements (finish .exact plan s).total := by
  rcases Trim.overshoot_exact_cases plan.target s.placements with hkept | hremoved
  · obtain ⟨hplacements, htotal⟩ := finish_of_kept hs hkept
    rw [hplacements, htotal]
    exact hbounds
  · obtain ⟨earlier, removed, later, hremoves⟩ := hremoved
    have hpos := htimed removed hremoves.mem
    have hwithin := total_le_of_removes hbounds hremoves
    right
    right
    rw [(finish_of_removes hs hremoves).2]
    omega

/-- Every block keeps to the upper bound, but for the empty one and a single
overlong song, and all its music starts before the lower bound. -/
theorem build_bounds (plan : Plan) (pools : Pools) (coins : Coins) (htimed : pools.AllTimed) :
    let result := (build .exact plan pools coins).1
    plan.Bounds result.placements result.total ∧
      ∀ p ∈ result.placements, p.isMusic = true → p.startsAt < plan.lowerBound := by
  intro result
  have hgrown := Filling.grown_filled ⟨.exact, plan, pools.ads, coins⟩ pools
  have hplaced := hgrown.allTimed rfl htimed
  refine ⟨finish_bounds hgrown.coherent hplaced (hgrown.bounds rfl), ?_⟩
  intro p hp hmusic
  obtain ⟨q, hq, _, hsame, hstarts⟩ := exists_of_mem_finish hgrown.coherent hplaced hp
  have hshort := hgrown.startsAt_lt q hq (hsame.trans hmusic)
  exact Int.lt_of_le_of_lt hstarts hshort

/-- The bounds of the sample, whose middle song is removed. -/
theorem build_bounds_sample :
    Sample.pools.AllTimed ∧
      let result := (build .exact Sample.plan Sample.pools Sample.coins).1
      Sample.plan.Bounds result.placements result.total ∧
        ∀ p ∈ result.placements, p.isMusic = true → p.startsAt < Sample.plan.lowerBound :=
  ⟨by decide, build_bounds Sample.plan Sample.pools Sample.coins (by decide)⟩

/-- What the trim of a block leaves is less than the accuracy off the target, and
nearer to it than before. -/
theorem finish_nearer {earlier later : List Placement} {removed : Placement}
    (hs : s.Coherent .exact) (htimed : ∀ p ∈ s.placements, 0 < p.track.duration)
    (hbounds : plan.Bounds s.placements s.total)
    (h : Trim.Removes plan.target s.placements earlier removed later) :
    |(finish .exact plan s).total - plan.target| < s.total - plan.target ∧
      s.total - plan.target ≤ plan.accuracy ∧ 0 ≤ (finish .exact plan s).total := by
  have hleft : Placement.total .exact (earlier ++ later) = (finish .exact plan s).total := by
    rw [Placement.total_exact_remove earlier removed later, ← h.1, ← hs.total_eq,
      (finish_of_removes hs h).2]
  have hnearer := h.checked.2.2
  rw [hleft, ← hs.total_eq] at hnearer
  have hwithin := Plan.le_target_add_accuracy (hs.total_nonneg htimed)
    (total_le_of_removes hbounds h)
  refine ⟨?_, by omega, ?_⟩
  · rw [Int.abs_eq_natAbs]
    exact hnearer
  · rw [← hleft]
    apply Placement.le_totalFrom_exact
    intro p hp
    exact htimed p (h.left_sublist.mem hp)

/-- A trimmed block is less than the accuracy off its target, is never reported
as too short, and was farther from the target before the trim. -/
theorem build_within_accuracy_of_trimmed (plan : Plan) (pools : Pools) (coins : Coins)
    (id : String) (htimed : pools.AllTimed)
    (htrimmed : .trimmed id ∈ (build .exact plan pools coins).1.warnings) :
    let result := (build .exact plan pools coins).1
    |result.total - plan.target| < plan.accuracy ∧
      (∀ total bound, .underfilled total bound ∉ result.warnings) ∧
      |result.total - plan.target| <
        |Placement.total .exact (untrimmed .exact plan pools coins) - plan.target| := by
  intro result
  have hgrown := Filling.grown_filled ⟨.exact, plan, pools.ads, coins⟩ pools
  obtain ⟨removed, hremoved, _⟩ := removed_of_trimmed htrimmed
  obtain ⟨earlier, later, hremoves⟩ := Trim.exists_removes hremoved
  obtain ⟨hnearer, hover, hpos⟩ := finish_nearer hgrown.coherent
    (hgrown.allTimed rfl htimed) (hgrown.bounds rfl) hremoves
  have hwithin : |result.total - plan.target| < plan.accuracy := Int.lt_of_lt_of_le hnearer hover
  refine ⟨hwithin, ?_, ?_⟩
  · intro total bound hshort
    have hbelow : result.total < plan.lowerBound := lt_lowerBound_of_underfilled hshort
    have hreached : plan.lowerBound ≤ result.total := by
      apply Plan.lowerBound_le hpos
      rw [Int.abs_eq_natAbs] at hwithin
      change plan.target - plan.accuracy ≤ result.total
      omega
    omega
  · apply Int.lt_of_lt_of_le hnearer
    rw [hgrown.coherent.total_eq]
    exact le_abs_self _

/-- The sample misses its target by half a minute where it missed it by a whole one. -/
theorem build_within_accuracy_sample :
    Sample.pools.AllTimed ∧
      .trimmed "b" ∈ (build .exact Sample.plan Sample.pools Sample.coins).1.warnings ∧
      let result := (build .exact Sample.plan Sample.pools Sample.coins).1
      |result.total - Sample.plan.target| < Sample.plan.accuracy ∧
        (∀ total bound, .underfilled total bound ∉ result.warnings) ∧
        |result.total - Sample.plan.target| <
          |Placement.total .exact (untrimmed .exact Sample.plan Sample.pools Sample.coins) -
            Sample.plan.target| := by
  have htimed : Sample.pools.AllTimed := by decide
  have htrimmed :
      .trimmed "b" ∈ (build .exact Sample.plan Sample.pools Sample.coins).1.warnings := by
    decide +kernel
  exact ⟨htimed, htrimmed,
    build_within_accuracy_of_trimmed Sample.plan Sample.pools Sample.coins "b" htimed htrimmed⟩

end Sequence

end Rundown
