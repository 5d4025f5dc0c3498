import Rundown.Proofs.Finish
import Rundown.Proofs.History

/-!
# Quota ceilings

A quota with a greatest share refuses a track that it covers as soon as the
songs so far have reached the share.  The first song is never refused, since
there is nothing yet to take a share of.  Every later song of a block was
therefore placed below each ceiling that applies to it, in either phase and
whether or not it was taken in spite of the separation.

The share that counts is the one before the song.  With the song itself it may
be above the ceiling, and what the trim leaves may exceed it as well.
-/

namespace Rundown

/-- Each song but the first was placed while every quota that covers it was below
its ceiling among the songs before. -/
def Plan.KeepsCeilings (plan : Plan) (songs : List Track) : Prop :=
  ∀ earlier t later, songs = earlier ++ t :: later → earlier ≠ [] →
    ∀ q ∈ plan.quotas, ∀ ceiling ∈ q.maxShare, q.covers t = true →
      ¬ ceiling ≤ State.percent (earlier.countP q.covers) earlier.length

/-- One more song keeps the ceilings if it comes below each that applies to it. -/
theorem Plan.KeepsCeilings.concat {plan : Plan} {songs : List Track} {t : Track}
    (h : plan.KeepsCeilings songs)
    (hbelow : songs ≠ [] → ∀ q ∈ plan.quotas, ∀ ceiling ∈ q.maxShare, q.covers t = true →
      ¬ ceiling ≤ State.percent (songs.countP q.covers) songs.length) :
    plan.KeepsCeilings (songs ++ [t]) := by
  intro earlier u later hsplit
  rcases split_concat hsplit with ⟨rfl, rfl⟩ | ⟨front, hold⟩
  · -- The new song is the one in question.
    exact hbelow
  · exact h earlier u front hold

/-- A track that exceeds no quota is below every ceiling that applies to it. -/
theorem History.below_of_not_exceedsQuota {plan : Plan} {placements : List Placement} {t : Track}
    (h : exceedsQuota plan placements t = false) (hsome : Placement.songs placements ≠ []) :
    ∀ q ∈ plan.quotas, ∀ ceiling ∈ q.maxShare, q.covers t = true →
      ¬ ceiling ≤ State.percent ((Placement.songs placements).countP q.covers)
        (Placement.songs placements).length := by
  intro q hq ceiling hceiling hcovers hreached
  have hnone : (Placement.songs placements).isEmpty = false := by simpa using hsome
  unfold exceedsQuota at h
  rw [hnone, Bool.not_false, Bool.true_and, List.any_eq_false] at h
  apply h q hq
  rw [Option.mem_def.mp hceiling]
  simp only [hcovers, Bool.and_true, decide_eq_true_eq]
  exact hreached

namespace Filling

variable {f : Filling} {pools : Pools} {s : State}

/-- A block keeps to the ceilings at every moment of its growth. -/
theorem Grown.keepsCeilings (h : f.Grown pools s) :
    f.plan.KeepsCeilings (Placement.songs s.placements) := by
  induction h with
  | start =>
      intro earlier t later hsplit
      simp [State.start, Placement.songs, Placement.music] at hsplit
  | @step fromFallback s _ grown next ih =>
      cases next with
      | @music t take =>
          have hquota := take.not_exceedsQuota
          rw [grown.recalls.exceedsQuota_eq] at hquota
          rw [State.songs_placeMusic]
          exact ih.concat (History.below_of_not_exceedsQuota hquota)
      | ad known fits =>
          rw [State.songs_placeAd]
          exact ih

end Filling

namespace Sequence

/-- Before the trim every song but the first came below each ceiling that applies
to it, for any plan, pools and coins and under every reckoning. -/
theorem untrimmed_keepsCeilings (r : Reckoning) (plan : Plan) (pools : Pools) (coins : Coins) :
    plan.KeepsCeilings (Placement.songs (untrimmed r plan pools coins)) :=
  (Filling.grown_filled ⟨r, plan, pools.ads, coins⟩ pools).keepsCeilings

end Sequence

end Rundown
