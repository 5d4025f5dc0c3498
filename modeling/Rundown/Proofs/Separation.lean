import Rundown.Proofs.Finish
import Rundown.Proofs.History

/-!
# Separation in a built and in a finished block

While a block is built, a track is taken without a violation only if each of its
keys was last placed a gap ago, and what is remembered of a key is never older
than any music placed with it.  A block in which nothing was relaxed therefore
keeps every gap between starts, not only those between neighbours.

The trim does not look at the separation.  It moves the later placements towards
the earlier ones by the removed duration, so a finished block keeps its gaps if
and only if every gap across the removed placement had that much to spare.
-/

namespace Rundown

/-- Two tracks have the same key of an attribute.  Tracks without a key do not. -/
def Attribute.SharedBy (a : Attribute) (t u : Track) : Prop :=
  a.key? t ≠ none ∧ a.key? u = a.key? t

instance (a : Attribute) (t u : Track) : Decidable (a.SharedBy t u) :=
  inferInstanceAs (Decidable (_ ∧ _))

/-- A placement starts late enough after an earlier one, with some time to spare. -/
def Plan.KeptApart (plan : Plan) (spare : Int) (p q : Placement) : Prop :=
  ∀ x ∈ plan.separation, x.1.SharedBy p.track q.track → x.2 + spare ≤ q.startsAt - p.startsAt

instance (plan : Plan) (spare : Int) : DecidableRel (plan.KeptApart spare) :=
  fun _ _ => inferInstanceAs (Decidable (∀ x ∈ _, _))

/-- Any two music placements keep the gaps of a plan. -/
def Plan.Separated (plan : Plan) (placements : List Placement) : Prop :=
  (Placement.music placements).Pairwise (plan.KeptApart 0)

instance (plan : Plan) (placements : List Placement) : Decidable (plan.Separated placements) :=
  inferInstanceAs (Decidable (List.Pairwise _ _))

namespace State

/-- No shortfall exceeds the worst one. -/
theorem le_worst {n : Int} {shortfalls : List Int} (h : n ∈ shortfalls) :
    n ≤ worst shortfalls := by
  cases shortfalls with
  | nil => contradiction
  | cons first rest => exact (List.max?_le_iff List.max?_cons').mp (Int.le_refl _) n h

/-- A track without a violation comes a gap after what is remembered of its keys. -/
theorem gap_le_of_violation_eq_zero {s : State} {plan : Plan} {t : Track} {a : Attribute}
    {gap last : Int} {key : String} (henabled : plan.separationEnabled = true)
    (hclean : s.violation .exact plan t = 0) (hgap : (a, gap) ∈ plan.separation)
    (hkey : a.key? t = some key) (hlast : s.lastPlayed.get? (a, key) = some last) :
    gap ≤ s.total - last := by
  apply Int.not_lt.mp
  intro hshort
  have hshortfall : s.shortfall? .exact t a gap = some (gap - (s.total - last)) := by
    unfold shortfall?
    rw [hkey, Option.bind_some, hlast]
    exact if_pos hshort
  have hmem : gap - (s.total - last) ∈
      plan.separation.filterMap fun x => s.shortfall? .exact t x.1 x.2 := by
    apply List.mem_filterMap.mpr
    exact ⟨(a, gap), hgap, hshortfall⟩
  unfold violation at hclean
  rw [if_pos henabled] at hclean
  have hworst := Int.le_trans (le_worst hmem) (Int.le_of_eq hclean)
  omega

/-- Of every key of music placed so far, a start that is no earlier is remembered. -/
def Remembers (plan : Plan) (s : State) : Prop :=
  ∀ p ∈ Placement.music s.placements, ∀ a ∈ plan.separation.map (·.1),
    ∀ key, a.key? p.track = some key →
      ∃ last, s.lastPlayed.get? (a, key) = some last ∧ p.startsAt ≤ last

end State

namespace Filling

variable {f : Filling} {pools : Pools} {s : State}

/-! ## A block under construction -/

theorem Grown.startsAt_le (h : f.Grown pools s) (hexact : f.reckoning = .exact)
    (hads : f.ads = pools.ads) (htimed : pools.AllTimed) :
    ∀ p ∈ s.placements, p.startsAt ≤ s.total := by
  induction h with
  | start => simp [State.start]
  | step fromFallback grown next ih =>
      have hplaced := (grown.step fromFallback next).allTimed hads htimed
      obtain ⟨p, hp⟩ := next.appends
      have hends := hp.ends
      rw [hexact, Reckoning.hold_exact] at hends
      rw [hp.placements] at hplaced ⊢
      have hpos := hplaced p (List.mem_append_right _ List.mem_cons_self)
      rw [hp.total]
      intro q hq
      rcases List.mem_append.mp hq with hold | hnew
      · have hbefore := ih q hold
        omega
      · rw [List.mem_singleton.mp hnew, hp.starts]
        omega

/-- Placements start in their order. -/
theorem Grown.ordered (h : f.Grown pools s) (hexact : f.reckoning = .exact)
    (hads : f.ads = pools.ads) (htimed : pools.AllTimed) :
    s.placements.Pairwise fun p q => p.startsAt ≤ q.startsAt := by
  induction h with
  | start => exact List.Pairwise.nil
  | step fromFallback grown next ih =>
      obtain ⟨p, hp⟩ := next.appends
      rw [hp.placements, List.pairwise_append]
      refine ⟨ih, List.pairwise_singleton _ _, ?_⟩
      intro q hq last hlast
      rw [List.mem_singleton.mp hlast, hp.starts]
      exact grown.startsAt_le hexact hads htimed q hq

/-- What is remembered of a key is never older than music with that key. -/
theorem Grown.remembers (h : f.Grown pools s) (hexact : f.reckoning = .exact)
    (hads : f.ads = pools.ads) (htimed : pools.AllTimed) : s.Remembers f.plan := by
  intro p hp a ha key hkey
  rw [h.recalls.lastPlayed_eq a ha key]
  exact History.le_lastStart? (h.ordered hexact hads htimed) hp hkey

/-- A block in which no track was taken with a violation keeps every gap. -/
theorem Grown.separated (h : f.Grown pools s) (hexact : f.reckoning = .exact)
    (hads : f.ads = pools.ads) (htimed : pools.AllTimed)
    (henabled : f.plan.separationEnabled = true) (hstrict : s.relaxed = false) :
    f.plan.Separated s.placements := by
  induction h with
  | start => exact List.Pairwise.nil
  | @step fromFallback s _ grown next ih =>
      unfold Plan.Separated
      cases next with
      | @music t take =>
          obtain ⟨hbefore, hclean⟩ := Bool.or_eq_false_iff.mp hstrict
          rw [hexact, bne_eq_false_iff_eq] at hclean
          rw [State.music_placeMusic, List.pairwise_append]
          refine ⟨ih hbefore, List.pairwise_singleton _ _, ?_⟩
          -- The gap to what is remembered is a gap to all music with the key.
          intro p hp q hq x hx hshared
          rw [List.mem_singleton.mp hq] at hshared ⊢
          obtain ⟨key, hkey⟩ := Option.ne_none_iff_exists'.mp hshared.1
          have hlater : x.1.key? t = some key := hshared.2.trans hkey
          obtain ⟨last, hlast, hstarts⟩ := grown.remembers hexact hads htimed p hp x.1
            (List.mem_map_of_mem hx) key hkey
          have hgap := State.gap_le_of_violation_eq_zero henabled hclean hx hlater hlast
          change x.2 + 0 ≤ s.total - p.startsAt
          omega
      | @ad t known fits =>
          rw [State.music_placeAd]
          exact ih hstrict

end Filling

/-! ## A finished block -/

namespace Plan

variable {plan : Plan}

/-- A later placement that moves forward needs as much time to spare. -/
theorem keptApart_delay {shift : Int} {p q : Placement} :
    plan.KeptApart 0 p (q.delay (-shift)) ↔ plan.KeptApart shift p q := by
  refine forall₂_congr fun x _ => imp_congr_right fun _ => ?_
  rw [Placement.startsAt_delay]
  omega

theorem keptApart_delay_delay {shift : Int} {p q : Placement} :
    plan.KeptApart 0 (p.delay shift) (q.delay shift) ↔ plan.KeptApart 0 p q := by
  refine forall₂_congr fun x _ => imp_congr_right fun _ => ?_
  rw [Placement.startsAt_delay, Placement.startsAt_delay]
  omega

theorem separated_append {xs ys : List Placement} :
    plan.Separated (xs ++ ys) ↔ plan.Separated xs ∧ plan.Separated ys ∧
      ∀ p ∈ Placement.music xs, ∀ q ∈ Placement.music ys, plan.KeptApart 0 p q := by
  unfold Separated
  rw [Placement.music_append, List.pairwise_append]

theorem separated_map_delay {shift : Int} {placements : List Placement} :
    plan.Separated (placements.map (Placement.delay shift)) ↔ plan.Separated placements := by
  unfold Separated
  rw [Placement.music_map_delay, List.pairwise_map]
  simp only [keptApart_delay_delay]

end Plan

/-- Every gap across the placement that a trim removes has its duration to spare. -/
def Trim.SparesGaps (plan : Plan) (placements : List Placement) : Prop :=
  ∀ earlier removed later, Removes plan.target placements earlier removed later →
    ∀ p ∈ Placement.music earlier, ∀ q ∈ Placement.music later,
      plan.KeptApart removed.track.duration p q

namespace Sequence

variable {plan : Plan} {s : State}

/-- Finishing keeps all gaps of a block exactly if the trim has them to spare. -/
theorem finish_separated_iff (hs : s.Coherent .exact) (hseparated : plan.Separated s.placements) :
    plan.Separated (finish .exact plan s).placements ↔ Trim.SparesGaps plan s.placements := by
  constructor
  · -- Any way to see the removal gives the same finished block.
    intro hfinished earlier removed later hremoves p hp q hq
    rw [(finish_of_removes hs hremoves).1, Plan.separated_append] at hfinished
    apply Plan.keptApart_delay.mp
    apply hfinished.2.2 p hp
    rw [Placement.music_map_delay]
    exact List.mem_map_of_mem hq
  · intro hspares
    rcases Trim.overshoot_exact_cases plan.target s.placements with hkept | hremoved
    · rw [(finish_of_kept hs hkept).1]
      exact hseparated
    · obtain ⟨earlier, removed, later, hremoves⟩ := hremoved
      rw [hremoves.1, List.append_cons, Plan.separated_append] at hseparated
      obtain ⟨hfront, hlater, _⟩ := hseparated
      rw [(finish_of_removes hs hremoves).1, Plan.separated_append, Plan.separated_map_delay]
      refine ⟨(Plan.separated_append.mp hfront).1, hlater, ?_⟩
      intro p hp q hq
      rw [Placement.music_map_delay] at hq
      obtain ⟨before, hbefore, rfl⟩ := List.mem_map.mp hq
      exact Plan.keptApart_delay.mpr (hspares earlier removed later hremoves p hp before hbefore)

/-- A block whose result reports no relaxed separation relaxed none, unless it
is empty. -/
theorem relaxed_eq_false_of_not_mem (hsome : s.placements ≠ [])
    (h : .separationRelaxed ∉ (finish .exact plan s).warnings) : s.relaxed = false := by
  apply Bool.eq_false_iff.mpr
  intro hrelaxed
  apply h
  apply separationRelaxed_mem _ hrelaxed
  exact fun hnil => hsome ((finish_eq_nil_iff .exact plan s).mp hnil)

/-- When no relaxed separation is reported, the block kept every gap before it
was trimmed, and the result keeps them exactly if the trim had them to spare. -/
theorem build_separated_iff (plan : Plan) (pools : Pools) (coins : Coins)
    (henabled : plan.separationEnabled = true) (htimed : pools.AllTimed)
    (hstrict : .separationRelaxed ∉ (build .exact plan pools coins).1.warnings) :
    plan.Separated (untrimmed .exact plan pools coins) ∧
      (plan.Separated (build .exact plan pools coins).1.placements ↔
        Trim.SparesGaps plan (untrimmed .exact plan pools coins)) := by
  have hgrown := Filling.grown_filled ⟨.exact, plan, pools.ads, coins⟩ pools
  have hseparated : plan.Separated (untrimmed .exact plan pools coins) := by
    -- An empty result has no warnings at all, so it says nothing about the run.
    by_cases hnil : untrimmed .exact plan pools coins = []
    · rw [hnil]
      exact List.Pairwise.nil
    · exact hgrown.separated rfl rfl htimed henabled (relaxed_eq_false_of_not_mem hnil hstrict)
  exact ⟨hseparated, finish_separated_iff hgrown.coherent hseparated⟩

/-- The sample reports no relaxed separation, so its gaps depend on its trim. -/
theorem build_separated_sample :
    Sample.plan.separationEnabled = true ∧ Sample.pools.AllTimed ∧
      .separationRelaxed ∉ (build .exact Sample.plan Sample.pools Sample.coins).1.warnings ∧
      Sample.plan.Separated (untrimmed .exact Sample.plan Sample.pools Sample.coins) ∧
      (Sample.plan.Separated (build .exact Sample.plan Sample.pools Sample.coins).1.placements ↔
        Trim.SparesGaps Sample.plan (untrimmed .exact Sample.plan Sample.pools Sample.coins)) := by
  have henabled : Sample.plan.separationEnabled = true := by decide +kernel
  have htimed : Sample.pools.AllTimed := by decide
  have hstrict :
      .separationRelaxed ∉ (build .exact Sample.plan Sample.pools Sample.coins).1.warnings := by
    decide +kernel
  exact ⟨henabled, htimed, hstrict,
    build_separated_iff Sample.plan Sample.pools Sample.coins henabled htimed hstrict⟩

/-- A gap can get lost in the trim without any report: the sample wants six
minutes between two songs of one artist and delivers five. -/
theorem not_forall_build_separated :
    ¬ ∀ (rules sequence : Document) (year : Int) (pools : Pools) (coins : Coins),
      let plan := Plan.ofDocuments rules sequence year
      plan.separationEnabled = true → pools.AllTimed →
        .separationRelaxed ∉ (build .exact plan pools coins).1.warnings →
          plan.Separated (build .exact plan pools coins).1.placements := by
  intro h
  have hseparated := h Sample.rules .empty 2026 Sample.pools Sample.coins (by decide +kernel)
    (by decide) (by decide +kernel)
  have hlost : ¬ Sample.plan.Separated
      (build .exact Sample.plan Sample.pools Sample.coins).1.placements := by
    decide +kernel
  exact hlost hseparated

end Sequence

end Rundown
