import Rundown.Proofs.RoundRobin
import Rundown.Schedule.Basic

/-!
# Blocks and schedules without gaps

The offsets of a block are noted while it is built and formed again after the trim,
and a schedule counts them from the moment at which its slot starts.  All three are
one notion here: entries lie between a start and a finish, each next one starting
where the one before it ends.  Laying placements out closes every gap whatever the
trim took out, and moving all entries by the same function of time opens none.

A slot may start within a leap second.  Then the entries still meet, and the first
one starts with the slot; but a count of nanoseconds that knows no leap seconds says
nothing about how long they last.
-/

namespace Rundown

/-- Entries one after the other: the first starts at `start`, each next one where the
one before it ends, and the last ends at `finish`. -/
inductive Gapless {α τ : Type} (startsAt endsAt : α → τ) : (start finish : τ) → List α → Prop
  /-- Without entries no time passes. -/
  | nil (t : τ) : Gapless startsAt endsAt t t []
  /-- The later entries follow the first one at its end. -/
  | cons (x : α) {finish : τ} {rest : List α}
      (later : Gapless startsAt endsAt (endsAt x) finish rest) :
      Gapless startsAt endsAt (startsAt x) finish (x :: rest)

/-- Moving all times alike opens no gap. -/
theorem Gapless.map {α β τ σ : Type} {startsAt endsAt : α → τ} {startsAt' endsAt' : β → σ}
    {start finish : τ} {xs : List α} (h : Gapless startsAt endsAt start finish xs)
    (f : α → β) (move : τ → σ) (hstarts : ∀ x, startsAt' (f x) = move (startsAt x))
    (hends : ∀ x, endsAt' (f x) = move (endsAt x)) :
    Gapless startsAt' endsAt' (move start) (move finish) (xs.map f) := by
  induction h with
  | nil t => exact .nil (move t)
  | cons x later ih =>
      rw [← hstarts]
      apply Gapless.cons
      rw [hends]
      exact ih

namespace Placement

theorem gapless_layOutFrom (r : Reckoning) (start : Int) (placements : List Placement) :
    Gapless startsAt endsAt start (totalFrom r start placements)
      (layOutFrom r start placements) := by
  induction placements generalizing start with
  | nil => exact .nil start
  | cons p rest ih =>
      let finish := r.hold (start + p.track.duration)
      exact .cons { p with startsAt := start, endsAt := finish } (ih finish)

theorem endsAt_of_mem_layOutFrom {r : Reckoning} {start : Int} {placements : List Placement}
    {p : Placement} (h : p ∈ layOutFrom r start placements) :
    p.endsAt = r.hold (p.startsAt + p.track.duration) := by
  induction placements generalizing start with
  | nil => exact absurd h List.not_mem_nil
  | cons q rest ih =>
      rcases List.mem_cons.mp h with rfl | hlater
      · rfl
      · exact ih hlater

end Placement

/-! ## Moments -/

namespace Moment

/-- Nanoseconds since the start of 1970. -/
def instant (m : Moment) : Int :=
  m.seconds * nanosPerSecond + m.nanos

/-- No leap second is under way. -/
def IsOrdinary (m : Moment) : Prop :=
  m.nanos < nanosPerSecond

instance (m : Moment) : Decidable m.IsOrdinary :=
  inferInstanceAs (Decidable (_ < _))

/-- Outside a leap second the nanoseconds are added, and what exceeds a second is
carried over. -/
theorem after_of_isOrdinary {m : Moment} (h : m.IsOrdinary) (ms : Int) :
    m.after ms =
      let nanos : Int := m.nanos + ms.tmod 1000 * 1000000
      ⟨m.seconds + ms.tdiv 1000 + nanos / nanosPerSecond, (nanos % nanosPerSecond).toNat⟩ := by
  have hleap : ¬ nanosPerSecond ≤ m.nanos := Nat.not_le.mpr h
  simp only [after, hleap, decide_false, Bool.false_and, Bool.false_eq_true, if_false]
  rw [Int.fdiv_eq_ediv_of_nonneg _ (by decide), Int.fmod_eq_emod_of_nonneg _ (by decide)]

/-- Outside a leap second a later moment is later by just that time. -/
theorem instant_after {m : Moment} (h : m.IsOrdinary) (ms : Int) :
    (m.after ms).instant = m.instant + ms * 1000000 := by
  have hsplit := Int.mul_tdiv_add_tmod ms 1000
  rw [after_of_isOrdinary h]
  simp only [instant, nanosPerSecond]
  omega

theorem after_zero (m : Moment) : m.after 0 = m := by
  by_cases hordinary : m.IsOrdinary
  · have hnanos : m.nanos < 1000000000 := hordinary
    rw [after_of_isOrdinary hordinary]
    obtain ⟨seconds, nanos⟩ := m
    simp only [Int.zero_tmod, Int.zero_tdiv, nanosPerSecond, mk.injEq] at hnanos ⊢
    omega
  · have hleap : nanosPerSecond ≤ m.nanos := Nat.not_lt.mp hordinary
    simp [after, hleap]

end Moment

namespace Sequence

/-! ## Blocks and their schedules -/

section Finished

variable {r : Reckoning} {plan : Plan} {s : State}

/-- A finished block is laid out from its start to its total. -/
theorem exists_finish_eq (r : Reckoning) (plan : Plan) (s : State) :
    ∃ kept, (finish r plan s).placements = Placement.layOut r kept ∧
      (finish r plan s).total = Placement.total r kept :=
  ⟨(Trim.overshoot r plan.target s.placements).1, rfl, rfl⟩

/-- A block from which nothing was trimmed is finished as it was built. -/
theorem finish_eq_of_untrimmed (hs : s.Coherent .exact)
    (h : ∀ id, .trimmed id ∉ (finish .exact plan s).warnings) :
    (finish .exact plan s).placements = s.placements := by
  rcases Trim.overshoot_exact_cases plan.target s.placements with
    hkept | ⟨earlier, removed, later, hremoves⟩
  · exact (finish_of_kept hs hkept).1
  · exact absurd (trimmed_mem_of_cuts ⟨hremoves.1, hremoves.overshoot_eq⟩) (h _)

end Finished

section Schedule

variable {s : Sequence} (start : Moment)

/-- Every placement becomes an entry of the same media and kind, with an energy for
music only. -/
theorem schedule_contents (s : Sequence) :
    (s.schedule start).map (fun e => (e.media, e.isAd, e.energy.isSome)) =
      s.placements.map fun p => (p.track.id, p.isAd, p.isMusic) := by
  unfold schedule
  rw [List.map_map]
  apply List.map_congr_left
  intro p _
  cases hkind : p.isAd <;> simp [ScheduleEntry.ofPlacement, Placement.isMusic, hkind]

variable (h : Gapless Placement.startsAt Placement.endsAt 0 s.total s.placements)

include h

/-- The schedule of a block without gaps has none. -/
theorem gapless_schedule :
    Gapless ScheduleEntry.startsAt ScheduleEntry.endsAt start (start.after s.total)
      (s.schedule start) := by
  have hmoved : Gapless ScheduleEntry.startsAt ScheduleEntry.endsAt (start.after 0)
      (start.after s.total) (s.schedule start) :=
    h.map (ScheduleEntry.ofPlacement start) start.after (fun _ => rfl) (fun _ => rfl)
  rwa [start.after_zero] at hmoved

/-- In nanoseconds the schedule lasts from the start of the slot to the total after it. -/
theorem gapless_instants (hordinary : start.IsOrdinary) :
    Gapless (fun e : ScheduleEntry => e.startsAt.instant) (fun e => e.endsAt.instant)
      start.instant (start.instant + s.total * 1000000) (s.schedule start) := by
  have hmoved : Gapless (fun e : ScheduleEntry => e.startsAt.instant)
      (fun e => e.endsAt.instant) (start.instant + 0 * 1000000)
      (start.instant + s.total * 1000000) (s.schedule start) :=
    h.map (ScheduleEntry.ofPlacement start) (fun ms => start.instant + ms * 1000000)
      (fun p => Moment.instant_after hordinary p.startsAt)
      (fun p => Moment.instant_after hordinary p.endsAt)
  rwa [Int.zero_mul, Int.add_zero] at hmoved

end Schedule

/-- A result has no gaps, each placement lasts as long as its track, and its schedule
has an entry for each placement and no gaps either, from the start of the slot to the
total after it.  If nothing was trimmed, the offsets are those noted while the block
was built. -/
theorem build_gapless (plan : Plan) (pools : Pools) (coins : Coins) (start : Moment) :
    let result := (build .exact plan pools coins).1
    let entries := result.schedule start
    Gapless Placement.startsAt Placement.endsAt 0 result.total result.placements ∧
      (∀ p ∈ result.placements, p.endsAt = p.startsAt + p.track.duration) ∧
      entries.map (fun e => (e.media, e.isAd, e.energy.isSome)) =
        result.placements.map (fun p => (p.track.id, p.isAd, p.isMusic)) ∧
      Gapless ScheduleEntry.startsAt ScheduleEntry.endsAt start (start.after result.total)
        entries ∧
      (start.IsOrdinary →
        Gapless (fun e : ScheduleEntry => e.startsAt.instant) (fun e => e.endsAt.instant)
          start.instant (start.instant + result.total * 1000000) entries) ∧
      ((∀ id, .trimmed id ∉ result.warnings) →
        result.placements = untrimmed .exact plan pools coins) := by
  intro result entries
  let last := (filled ⟨.exact, plan, pools.ads, coins⟩ pools).state
  obtain ⟨kept, hplacements, htotal⟩ := exists_finish_eq .exact plan last
  have hgapless : Gapless Placement.startsAt Placement.endsAt 0 result.total
      result.placements := by
    change Gapless _ _ 0 (finish .exact plan last).total (finish .exact plan last).placements
    rw [hplacements, htotal]
    exact Placement.gapless_layOutFrom .exact 0 kept
  refine ⟨hgapless, ?_, schedule_contents start result, gapless_schedule start hgapless,
    gapless_instants start hgapless, ?_⟩
  · intro p hp
    change p ∈ (finish .exact plan last).placements at hp
    rw [hplacements] at hp
    exact Placement.endsAt_of_mem_layOutFrom hp
  · have hgrown := Filling.grown_filled ⟨.exact, plan, pools.ads, coins⟩ pools
    exact finish_eq_of_untrimmed hgrown.coherent

end Sequence

namespace Sample

/-- Two in the afternoon of the first of March 2026. -/
def slotStart : Moment := ⟨1772373600, 0⟩

end Sample

namespace Sequence

/-- Five songs and two interstitials of the sample, of which nothing is trimmed. -/
theorem build_gapless_sample :
    let result := (build .exact Sample.paired Sample.pairedPools Sample.coins).1
    let entries := result.schedule Sample.slotStart
    Sample.slotStart.IsOrdinary ∧ result.total = 555000 ∧
      (∀ id, .trimmed id ∉ result.warnings) ∧
      Gapless (fun e : ScheduleEntry => e.startsAt.instant) (fun e => e.endsAt.instant)
        1772373600000000000 1772374155000000000 entries ∧
      result.placements = untrimmed .exact Sample.paired Sample.pairedPools Sample.coins := by
  intro result entries
  have hordinary : Sample.slotStart.IsOrdinary := by decide
  have htotal : result.total = 555000 := by decide +kernel
  have hnone : ∀ id, .trimmed id ∉ result.warnings := by
    have hwarnings : result.warnings = [] := by decide +kernel
    rw [hwarnings]
    exact fun _ => List.not_mem_nil
  obtain ⟨_, _, _, _, hinstants, hbuilt⟩ :=
    build_gapless Sample.paired Sample.pairedPools Sample.coins Sample.slotStart
  have hstart : Sample.slotStart.instant = 1772373600000000000 := by decide
  have hmeasured := hinstants hordinary
  rw [hstart, htotal] at hmeasured
  exact ⟨hordinary, htotal, hnone, hmeasured, hbuilt hnone⟩

end Sequence

end Rundown
