import Mathlib.Algebra.Order.BigOperators.Group.List
import Rundown.Proofs.Provenance
import Rundown.Proofs.RepeatedPool
import Rundown.Sequence.Times

/-!
# The two phases of a result

The own phase comes first and the phase of the fallbacks second, each with its own
breaks, and the trim takes out one placement of either.  So a result is a part from
the own pool followed by a part from the fallbacks.  The second phase starts only
where the first one left the block short, and it adds nothing in front of itself:
what is placed from the own pool lasts less than the lower bound if anything comes
from the fallbacks.  If the own phase fills the block, the fallbacks do not matter at
all: not for the result, and not for whether the run breaks off.
-/

namespace Rundown

/-! ## The own part of a list of placements -/

namespace Placement

/-- A part from the own pool, and after it a part from the fallbacks. -/
def Phased (placements : List Placement) : Prop :=
  ∃ own lent, placements.map (·.fromFallback) =
    List.replicate own false ++ List.replicate lent true

/-- The time of the placements that are not from the fallbacks. -/
def ownTime (placements : List Placement) : Int :=
  ((placements.filter (!·.fromFallback)).map (·.track.duration)).sum

/-- The phase and the duration of a placement, which laying out does not touch. -/
def share (p : Placement) : Bool × Int :=
  (p.fromFallback, p.track.duration)

theorem ownTime_eq (placements : List Placement) :
    ownTime placements = (((placements.map share).filter (!·.1)).map (·.2)).sum := by
  unfold ownTime
  rw [List.filter_map, List.map_map]
  rfl

theorem map_fromFallback_eq (placements : List Placement) :
    placements.map (·.fromFallback) = (placements.map share).map (·.1) := by
  rw [List.map_map]
  rfl

theorem ownTime_append {own lent : List Placement} (hown : ∀ p ∈ own, p.fromFallback = false)
    (hlent : ∀ p ∈ lent, p.fromFallback = true) : ownTime (own ++ lent) = History.total own := by
  have hkept : own.filter (!·.fromFallback) = own :=
    List.filter_eq_self.mpr fun p hp => by rw [hown p hp]; rfl
  have hleft : lent.filter (!·.fromFallback) = [] :=
    List.filter_eq_nil_iff.mpr fun p hp => by rw [hlent p hp]; decide
  unfold ownTime History.total
  rw [List.filter_append, hkept, hleft, List.append_nil]

theorem phased_append {own lent : List Placement} (hown : ∀ p ∈ own, p.fromFallback = false)
    (hlent : ∀ p ∈ lent, p.fromFallback = true) : Phased (own ++ lent) := by
  refine ⟨own.length, lent.length, ?_⟩
  rw [List.map_append, List.map_eq_replicate_iff.mpr hown, List.map_eq_replicate_iff.mpr hlent]

section Sublist

variable {built finished : List Placement}
  (hpart : (finished.map share).Sublist (built.map share))

include hpart

/-- Leaving placements out keeps the order of the phases. -/
theorem Phased.of_sublist (h : Phased built) : Phased finished := by
  obtain ⟨own, lent, hflags⟩ := h
  have hsub := hpart.map (·.1)
  rw [← map_fromFallback_eq, ← map_fromFallback_eq, hflags] at hsub
  obtain ⟨front, back, hsplit, hfront, hback⟩ := List.sublist_append_iff.mp hsub
  obtain ⟨own', _, rfl⟩ := List.sublist_replicate_iff.mp hfront
  obtain ⟨lent', _, rfl⟩ := List.sublist_replicate_iff.mp hback
  exact ⟨own', lent', hsplit⟩

/-- Leaving out placements that take time leaves no more of it. -/
theorem ownTime_le_of_sublist (htimed : ∀ p ∈ built, 0 < p.track.duration) :
    ownTime finished ≤ ownTime built := by
  rw [ownTime_eq, ownTime_eq]
  apply List.Sublist.sum_le_sum ((hpart.filter _).map _)
  intro n hn
  obtain ⟨x, hx, rfl⟩ := List.mem_map.mp hn
  obtain ⟨p, hp, rfl⟩ := List.mem_map.mp (List.mem_filter.mp hx).1
  exact (htimed p hp).le

end Sublist

end Placement

namespace Sequence

/-- The block before the trim: the own phase, and what the fallbacks add to it if it is
short. -/
theorem exists_untrimmed_eq (r : Reckoning) (plan : Plan) (pools : Pools) (coins : Coins) :
    let own := (ownPhase r plan pools coins).state
    ∃ more, untrimmed r plan pools coins = own.placements ++ more ∧
      (∀ p ∈ own.placements, p.fromFallback = false) ∧
      (∀ p ∈ more, p.fromFallback = true) ∧ (more ≠ [] → own.total < plan.lowerBound) := by
  intro own
  let f : Filling := ⟨r, plan, pools.ads, coins⟩
  have hown : ∀ p ∈ own.placements, p.fromFallback = false := by
    obtain ⟨placed, hplaced, hphase⟩ := f.exists_append_passes false pools.music
      (if f.plan.allowRepeats then Filling.greatestPasses else 1) f.start
    have hall : own.placements = placed := hplaced
    rw [hall]
    exact hphase
  unfold untrimmed filled
  simp only
  split
  · rename_i hshort
    obtain ⟨more, hmore, hphase⟩ := f.exists_append_passes true pools.fallback 1
      (f.primary pools.music f.start)
    exact ⟨more, hmore, hown, hphase, fun _ => hshort⟩
  · exact ⟨[], (List.append_nil _).symm, hown, fun _ hp => absurd hp List.not_mem_nil,
      fun hsome => absurd rfl hsome⟩

/-- A result holds no other shares than the block before the trim, in the same order. -/
theorem map_share_sublist (r : Reckoning) (plan : Plan) (pools : Pools) (coins : Coins) :
    ((build r plan pools coins).1.placements.map Placement.share).Sublist
      ((untrimmed r plan pools coins).map Placement.share) :=
  map_finish_sublist Placement.share (fun _ _ _ => rfl) r plan _

/-- Fallbacks are left in a result only if its own phase ended short, and then no more
of the own pool is left than that phase placed. -/
theorem own_short_of_fallback {r : Reckoning} {plan : Plan} {pools : Pools} {coins : Coins}
    (htimed : pools.AllTimed)
    (hlent : ∃ p ∈ (build r plan pools coins).1.placements, p.fromFallback = true) :
    let own := (ownPhase r plan pools coins).state
    own.total < plan.lowerBound ∧
      Placement.ownTime (build r plan pools coins).1.placements ≤
        History.total own.placements := by
  intro own
  obtain ⟨more, huntrimmed, hown, hmore, hshort⟩ := exists_untrimmed_eq r plan pools coins
  have hpart := map_share_sublist r plan pools coins
  have htimes : ∀ p ∈ untrimmed r plan pools coins, 0 < p.track.duration :=
    (Filling.grown_filled ⟨r, plan, pools.ads, coins⟩ pools).allTimed rfl htimed
  constructor
  · apply hshort
    rintro rfl
    -- Nothing was added, so there is no fallback that the trim could have left.
    obtain ⟨p, hp, hflag⟩ := hlent
    obtain ⟨q, hq, hshare⟩ := List.mem_map.mp (hpart.mem (List.mem_map_of_mem hp))
    rw [huntrimmed, List.append_nil] at hq
    have hsame : q.fromFallback = p.fromFallback := congrArg Prod.fst hshare
    rw [hown q hq, hflag] at hsame
    exact Bool.false_ne_true hsame
  · have hle := Placement.ownTime_le_of_sublist hpart htimes
    rw [huntrimmed, Placement.ownTime_append hown hmore] at hle
    exact hle

/-- The running total of the own phase is the time of its placements. -/
theorem ownPhase_total_eq (plan : Plan) (pools : Pools) (coins : Coins) :
    (ownPhase .exact plan pools coins).state.total =
      History.total (ownPhase .exact plan pools coins).state.placements := by
  have hgrown : Filling.Grown ⟨.exact, plan, pools.ads, coins⟩ pools
      (ownPhase .exact plan pools coins).state :=
    Filling.grown_passes false _ .start
  rw [hgrown.coherent.total_eq]
  rw [Placement.total, Placement.totalFrom_exact_eq_add_sum, Int.zero_add, History.total]

section Full

variable {plan : Plan} {pools : Pools} {coins : Coins} (fallback : List Track)
  (hfull : plan.lowerBound ≤ (ownPhase .exact plan pools coins).state.total)

include hfull

theorem build_exact_of_full :
    build .exact plan { pools with fallback := fallback } coins =
      build .exact plan pools coins := by
  -- The own phase does not read the fallbacks.
  have hsame : ownPhase .exact plan { pools with fallback := fallback } coins =
      ownPhase .exact plan pools coins := rfl
  rw [build_of_full hfull, build_of_full (by rw [hsame]; exact hfull), hsame]

/-- Where the own phase fills the block, no fallback is tried, so the same times are
formed whatever the fallbacks are. -/
theorem tryBuild_of_full :
    tryBuild plan { pools with fallback := fallback } coins = tryBuild plan pools coins := by
  have hshort : ¬ (ownPhase .exact plan pools coins).state.total < plan.lowerBound :=
    not_lt.mpr hfull
  have htimes : times plan { pools with fallback := fallback } coins =
      times plan pools coins := by
    -- Only the second phase reads the fallbacks, and neither run enters it.
    unfold times Filling.trials filled
    exact congrArg₂ (· ++ ·)
      (congrArg (List.flatMap (Trial.times plan))
        (congrArg (_ ++ ·) ((if_neg hshort).trans (if_neg hshort).symm)))
      (congrArg (fun run : Run => finishTimes plan run.state)
        ((if_neg hshort).trans (if_neg hshort).symm))
  rw [tryBuild, tryBuild, htimes, build_exact_of_full fallback hfull]

end Full

/-- A result is a part from the own pool and a part from the fallbacks, each placement
from the pool of its kind.  If there is a part from the fallbacks, the own part takes
less than the lower bound.  If the own phase fills the block, the fallbacks make no
difference. -/
theorem build_phased (plan : Plan) (pools : Pools) (coins : Coins) (htimed : pools.AllTimed) :
    let own := (ownPhase .exact plan pools coins).state
    let result := (build .exact plan pools coins).1
    Placement.Phased result.placements ∧
      pools.SupplyAll result.placements ∧
      ((∃ p ∈ result.placements, p.fromFallback = true) →
        Placement.ownTime result.placements < plan.lowerBound) ∧
      (plan.lowerBound ≤ own.total → ∀ fallback,
        let lending := { pools with fallback := fallback }
        build .exact plan lending coins = build .exact plan pools coins ∧
          tryBuild plan lending coins = tryBuild plan pools coins) := by
  intro own result
  obtain ⟨more, huntrimmed, hown, hmore, _⟩ := exists_untrimmed_eq .exact plan pools coins
  refine ⟨?_, build_supplyAll .exact plan pools coins, ?_, ?_⟩
  · apply Placement.Phased.of_sublist (map_share_sublist .exact plan pools coins)
    rw [huntrimmed]
    exact Placement.phased_append hown hmore
  · intro hlent
    obtain ⟨hshort, hle⟩ := own_short_of_fallback htimed hlent
    calc Placement.ownTime result.placements ≤ History.total own.placements := hle
      _ = own.total := (ownPhase_total_eq plan pools coins).symm
      _ < plan.lowerBound := hshort
  · intro hfull fallback
    exact ⟨build_exact_of_full fallback hfull, tryBuild_of_full fallback hfull⟩

end Sequence

namespace Sample

/-- A song of five minutes, and a shorter one to fall back on. -/
def borrowing : Pools :=
  ⟨[.song "a" "X" 300000], [], [.song "b" "Y" 270000]⟩

end Sample

namespace Sequence

/-- The block of five minutes is filled up from the fallbacks, and a block that its own
songs fill takes none. -/
theorem build_phased_sample :
    let result := (build .exact Sample.plan Sample.borrowing Sample.coins).1
    let lending := { Sample.pools with fallback := [.song "d" "Z" 60000] }
    Sample.borrowing.AllTimed ∧ Sample.pools.AllTimed ∧
      result.placements.map (·.fromFallback) = [false, true] ∧
      Placement.Phased result.placements ∧ Sample.borrowing.SupplyAll result.placements ∧
      Placement.ownTime result.placements < Sample.plan.lowerBound ∧
      Sample.plan.lowerBound ≤
        (ownPhase .exact Sample.plan Sample.pools Sample.coins).state.total ∧
      build .exact Sample.plan lending Sample.coins =
        build .exact Sample.plan Sample.pools Sample.coins ∧
      tryBuild Sample.plan lending Sample.coins =
        tryBuild Sample.plan Sample.pools Sample.coins := by
  have hborrowing : Sample.borrowing.AllTimed := by decide
  have hpools : Sample.pools.AllTimed := by decide
  have hflags : (build .exact Sample.plan Sample.borrowing Sample.coins).1.placements.map
      (·.fromFallback) = [false, true] := by
    decide +kernel
  have hlent : ∃ p ∈ (build .exact Sample.plan Sample.borrowing Sample.coins).1.placements,
      p.fromFallback = true := by
    apply List.mem_map.mp
    rw [hflags]
    decide
  have hfull : Sample.plan.lowerBound ≤
      (ownPhase .exact Sample.plan Sample.pools Sample.coins).state.total := by
    decide +kernel
  obtain ⟨hphased, hsupply, hshort, _⟩ :=
    build_phased Sample.plan Sample.borrowing Sample.coins hborrowing
  obtain ⟨_, _, _, hsame⟩ := build_phased Sample.plan Sample.pools Sample.coins hpools
  exact ⟨hborrowing, hpools, hflags, hphased, hsupply, hshort hlent, hfull, hsame hfull _⟩

end Sequence

end Rundown
