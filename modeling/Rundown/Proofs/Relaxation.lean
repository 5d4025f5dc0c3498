import Rundown.Proofs.Separation

/-!
# When the separation is relaxed

A track is taken in spite of the separation only when no clean one is left, and
the block notes it.  The note is made on one track at a time, against the latest
placement of each key.  It nevertheless says something about the whole block: it
stands exactly if some two music placements that share a key start less than
their gap apart.  The result reports the note, so the report speaks of the block
before the trim.
-/

namespace Rundown

/-- Some two music placements share the key of an attribute and start less than its
gap apart. -/
def Plan.Crowded (plan : Plan) (placements : List Placement) : Prop :=
  ∃ p q, [p, q].Sublist (Placement.music placements) ∧
    ∃ x ∈ plan.separation, x.1.SharedBy p.track q.track ∧
      ((q.startsAt - p.startsAt).natAbs : Int) < x.2

/-- Placements in the order of their starts are crowded or keep all gaps. -/
theorem Plan.crowded_iff_not_separated {plan : Plan} {placements : List Placement}
    (hordered : placements.Pairwise fun p q => p.startsAt ≤ q.startsAt) :
    plan.Crowded placements ↔ ¬ plan.Separated placements := by
  have hmusic : (Placement.music placements).Pairwise fun p q => p.startsAt ≤ q.startsAt :=
    hordered.sublist List.filter_sublist
  unfold Separated
  rw [List.pairwise_iff_forall_sublist]
  constructor
  · rintro ⟨p, q, hpair, x, hx, hshared, hnear⟩ hseparated
    have hgap := hseparated hpair x hx hshared
    omega
  · intro hclose
    simp only [KeptApart, not_forall, Int.not_le] at hclose
    obtain ⟨p, q, hpair, x, hx, hshared, hnear⟩ := hclose
    have hle : p.startsAt ≤ q.startsAt := List.pairwise_iff_forall_sublist.mp hmusic hpair
    exact ⟨p, q, hpair, x, hx, hshared, by omega⟩

/-- A violation goes back to a key that was placed less than its gap ago. -/
theorem State.exists_of_violation_ne_zero {s : State} {plan : Plan} {t : Track}
    (h : s.violation .exact plan t ≠ 0) :
    ∃ x ∈ plan.separation, ∃ key last, x.1.key? t = some key ∧
      s.lastPlayed.get? (x.1, key) = some last ∧ s.total - last < x.2 := by
  unfold violation at h
  split at h
  · change worst (plan.separation.filterMap fun x => s.shortfall? .exact t x.1 x.2) ≠ 0 at h
    cases hshort : plan.separation.filterMap fun x => s.shortfall? .exact t x.1 x.2 with
    | nil =>
        rw [hshort] at h
        contradiction
    | cons shortfall rest =>
        have hmem : shortfall ∈
            plan.separation.filterMap fun x => s.shortfall? .exact t x.1 x.2 := by
          rw [hshort]
          exact List.mem_cons_self
        obtain ⟨⟨a, gap⟩, hx, hfound⟩ := List.mem_filterMap.mp hmem
        simp only [shortfall?] at hfound
        split at hfound
        · rename_i last hlast
          obtain ⟨key, hkey, hplayed⟩ := Option.bind_eq_some_iff.mp hlast
          refine ⟨(a, gap), hx, key, last, hkey, hplayed, ?_⟩
          by_contra hlate
          have hpassed : ¬ Reckoning.exact.hold (s.total - last) < gap := hlate
          rw [if_neg hpassed] at hfound
          contradiction
        · contradiction
  · contradiction

namespace Filling

variable {f : Filling} {pools : Pools} {s : State}

/-- A track that is placed with a violation comes too early after music that is
in the block. -/
theorem Grown.not_separated_of_violation (h : f.Grown pools s) {p : Placement}
    (hviolation : s.violation .exact f.plan p.track ≠ 0) (hmusic : p.isMusic = true)
    (hstarts : p.startsAt = s.total) : ¬ f.plan.Separated (s.placements ++ [p]) := by
  obtain ⟨x, hx, key, last, hkey, hlast, hshort⟩ := State.exists_of_violation_ne_zero hviolation
  rw [h.recalls.lastPlayed_eq x.1 (List.mem_map_of_mem hx) key] at hlast
  obtain ⟨q, hq, hsame, rfl⟩ := History.exists_of_lastStart? hlast
  intro hseparated
  have hshared : x.1.SharedBy q.track p.track := by
    refine ⟨?_, hkey.trans hsame.symm⟩
    rw [hsame]
    exact Option.some_ne_none key
  have hnew : p ∈ Placement.music [p] :=
    Placement.mem_music.mpr ⟨List.mem_cons_self, hmusic⟩
  have hgap := (Plan.separated_append.mp hseparated).2.2 q hq p hnew x hx hshared
  omega

/-- The note about the separation stands exactly when some gap is not kept. -/
theorem Grown.relaxed_iff (h : f.Grown pools s) (hexact : f.reckoning = .exact)
    (hads : f.ads = pools.ads) (htimed : pools.AllTimed)
    (henabled : f.plan.separationEnabled = true) :
    s.relaxed = true ↔ ¬ f.plan.Separated s.placements := by
  constructor
  · intro hrelaxed
    induction h with
    | start => contradiction
    | @step fromFallback s _ grown next ih =>
        cases next with
        | @music t take =>
            rcases Bool.or_eq_true_iff.mp hrelaxed with hbefore | hviolation
            · -- A gap that was not kept before is still in the block.
              exact fun hseparated => ih hbefore (Plan.separated_append.mp hseparated).1
            · rw [hexact] at hviolation
              exact grown.not_separated_of_violation (by simpa using hviolation) rfl rfl
        | ad known fits =>
            exact fun hseparated => ih hrelaxed (Plan.separated_append.mp hseparated).1
  · intro hclose
    by_contra hstrict
    exact hclose (h.separated hexact hads htimed henabled (Bool.not_eq_true _ ▸ hstrict))

end Filling

namespace Sample

/-- Two songs of one artist and nothing to keep them apart. -/
def duo : Pools :=
  ⟨[.song "a" "X" 300000, .song "c" "X" 270000], [], []⟩

end Sample

namespace Sequence

/-- A result reports a relaxed separation exactly if some two music placements that
share a key started less than its gap apart before the trim. -/
theorem build_relaxed_iff (plan : Plan) (pools : Pools) (coins : Coins)
    (henabled : plan.separationEnabled = true) (htimed : pools.AllTimed) :
    .separationRelaxed ∈ (build .exact plan pools coins).1.warnings ↔
      plan.Crowded (untrimmed .exact plan pools coins) := by
  have hgrown := Filling.grown_filled ⟨.exact, plan, pools.ads, coins⟩ pools
  have hrelaxed := hgrown.relaxed_iff rfl rfl htimed henabled
  have hcrowded : plan.Crowded (untrimmed .exact plan pools coins) ↔
      ¬ plan.Separated (untrimmed .exact plan pools coins) :=
    Plan.crowded_iff_not_separated (hgrown.ordered rfl rfl htimed)
  rw [hcrowded]
  constructor
  · intro hreported
    exact hrelaxed.mp (relaxed_of_separationRelaxed hreported)
  · intro hclose
    -- Only a block with two songs misses a gap, so the result is not empty.
    by_contra hsilent
    have hnil : untrimmed .exact plan pools coins = [] := by
      by_contra hsome
      have hstrict := relaxed_eq_false_of_not_mem hsome hsilent
      rw [hrelaxed.mpr hclose] at hstrict
      contradiction
    rw [hnil] at hclose
    exact hclose List.Pairwise.nil

/-- Two songs of one artist are five minutes apart where six are wanted, and the
result reports it. -/
theorem build_relaxed_sample :
    Sample.plan.separationEnabled = true ∧ Sample.duo.AllTimed ∧
      .separationRelaxed ∈ (build .exact Sample.plan Sample.duo Sample.coins).1.warnings ∧
      Sample.plan.Crowded (untrimmed .exact Sample.plan Sample.duo Sample.coins) := by
  have henabled : Sample.plan.separationEnabled = true := by decide +kernel
  have htimed : Sample.duo.AllTimed := by decide
  have hreported :
      .separationRelaxed ∈ (build .exact Sample.plan Sample.duo Sample.coins).1.warnings := by
    decide +kernel
  exact ⟨henabled, htimed, hreported,
    (build_relaxed_iff Sample.plan Sample.duo Sample.coins henabled htimed).mp hreported⟩

end Sequence

end Rundown
