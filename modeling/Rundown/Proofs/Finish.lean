import Rundown.Plan.Normalize
import Rundown.Proofs.Trim

/-!
# The finished block

Finishing trims the placements of a grown block, lays them out again and adds
the warnings.  With times as integers the result is read off the trim: without a
removal nothing moves, and with one the later placements move forward by the
removed duration.  Of the warnings, this file says when the shortfall, the
relaxed separation and the trim are reported; it leaves the quotas out.  The
sample at the end is a block whose middle song is removed.
-/

namespace Rundown

namespace Sequence

/-- The placements of a block before it is trimmed. -/
def untrimmed (r : Reckoning) (plan : Plan) (pools : Pools) (coins : Coins) : List Placement :=
  (filled ⟨r, plan, pools.ads, coins⟩ pools).state.placements

section Finish

variable {plan : Plan} {s : State}

/-- Finishing leaves something of every block that has something. -/
theorem finish_eq_nil_iff (r : Reckoning) (plan : Plan) (s : State) :
    (finish r plan s).placements = [] ↔ s.placements = [] := by
  rw [← Trim.overshoot_eq_nil_iff r plan.target s.placements, ← List.length_eq_zero_iff]
  unfold finish
  simp only
  unfold Placement.layOut
  rw [Placement.length_layOutFrom, List.length_eq_zero_iff]

/-- The finished block is laid out anew without the placement that is taken out. -/
theorem finish_of_cuts {r : Reckoning} {earlier later : List Placement} {removed : Placement}
    (h : Trim.Cuts r plan.target s.placements earlier removed later) :
    (finish r plan s).placements = Placement.layOut r (earlier ++ later) := by
  simp only [finish, h.left]

/-- Under every reckoning the finished block is the built one laid out anew, with
one placement less when the trim takes one out. -/
theorem finish_cases (r : Reckoning) (plan : Plan) (s : State) :
    (finish r plan s).placements = Placement.layOut r s.placements ∨
      ∃ earlier removed later,
        Trim.Cuts r plan.target s.placements earlier removed later ∧
          (finish r plan s).placements = Placement.layOut r (earlier ++ later) := by
  rcases Trim.overshoot_cases r plan.target s.placements with
    hkept | ⟨earlier, removed, later, hcuts⟩
  · left
    simp only [finish, hkept]
  · exact Or.inr ⟨earlier, removed, later, hcuts, finish_of_cuts hcuts⟩

/-- A property that laying out does not touch is kept exactly if it holds of what
lies on both sides of a cut, taken together. -/
theorem finish_iff {P : List Placement → Prop} {r : Reckoning}
    (hlaid : ∀ placements, P (Placement.layOut r placements) ↔ P placements)
    (h : P s.placements) :
    P (finish r plan s).placements ↔
      ∀ earlier removed later, Trim.Cuts r plan.target s.placements earlier removed later →
        P (earlier ++ later) := by
  constructor
  · intro hfinished earlier removed later hcuts
    rw [finish_of_cuts hcuts] at hfinished
    exact (hlaid _).mp hfinished
  · intro hjoined
    rcases finish_cases r plan s with hkept | ⟨earlier, removed, later, hcuts, hfinish⟩
    · rw [hkept]
      exact (hlaid _).mpr h
    · rw [hfinish]
      exact (hlaid _).mpr (hjoined earlier removed later hcuts)

/-- Finishing leaves out a placement at most, and moves the others. -/
theorem map_finish_sublist {β : Type} (g : Placement → β)
    (hg : ∀ p start finish, g { p with startsAt := start, endsAt := finish } = g p)
    (r : Reckoning) (plan : Plan) (s : State) :
    ((finish r plan s).placements.map g).Sublist (s.placements.map g) := by
  have hlaid : ∀ placements, (Placement.layOut r placements).map g = placements.map g :=
    Placement.map_layOutFrom g hg r 0
  rcases finish_cases r plan s with hkept | ⟨earlier, removed, later, hcuts, hfinish⟩
  · have hsame : (finish r plan s).placements.map g = s.placements.map g := by
      rw [hkept, hlaid]
    exact hsame ▸ List.Sublist.refl _
  · rw [hfinish, hlaid, hcuts.split]
    exact ((List.Sublist.refl earlier).append (List.sublist_cons_self removed later)).map g

/-- Without a removal the block is finished as it was built. -/
theorem finish_of_kept (hs : s.Coherent .exact)
    (h : Trim.overshoot .exact plan.target s.placements = (s.placements, none)) :
    (finish .exact plan s).placements = s.placements ∧
      (finish .exact plan s).total = s.total := by
  simp only [finish, h]
  exact ⟨hs.laidOut, hs.total_eq.symm⟩

/-- With a removal the earlier placements stay and the later ones move forward. -/
theorem finish_of_removes {earlier later : List Placement} {removed : Placement}
    (hs : s.Coherent .exact)
    (h : Trim.Removes plan.target s.placements earlier removed later) :
    (finish .exact plan s).placements =
        earlier ++ later.map (Placement.delay (-removed.track.duration)) ∧
      (finish .exact plan s).total = s.total - removed.track.duration := by
  simp only [finish, h.overshoot_eq]
  have hlaid := hs.laidOut
  rw [h.1] at hlaid
  refine ⟨Placement.layOut_exact_remove hlaid, ?_⟩
  rw [hs.total_eq, Placement.total_exact_remove earlier removed later, ← h.1]

/-- A placement of the finished block is one of the built block, at its offset
or earlier, provided that what is removed takes time. -/
theorem exists_of_mem_finish (hs : s.Coherent .exact)
    (htimed : ∀ p ∈ s.placements, 0 < p.track.duration) {p : Placement}
    (hp : p ∈ (finish .exact plan s).placements) :
    ∃ q ∈ s.placements, q.track = p.track ∧ q.isMusic = p.isMusic ∧
      p.startsAt ≤ q.startsAt := by
  rcases Trim.overshoot_exact_cases plan.target s.placements with hkept | hremoved
  · rw [(finish_of_kept hs hkept).1] at hp
    exact ⟨p, hp, rfl, rfl, Int.le_refl _⟩
  · obtain ⟨earlier, removed, later, hremoves⟩ := hremoved
    have hpos := htimed removed hremoves.mem
    rw [(finish_of_removes hs hremoves).1] at hp
    rw [hremoves.1]
    rcases List.mem_append.mp hp with hearlier | hlater
    · exact ⟨p, List.mem_append_left _ hearlier, rfl, rfl, Int.le_refl _⟩
    · obtain ⟨q, hq, rfl⟩ := List.mem_map.mp hlater
      refine ⟨q, List.mem_append_right _ (List.mem_cons_of_mem _ hq), rfl, rfl, ?_⟩
      rw [Placement.startsAt_delay]
      omega

end Finish

section Warnings

variable {plan : Plan} {placements : List Placement} {total : Int} {relaxed : Bool}
variable {removed : Option Placement}

/-- What each warning of a result goes back to. -/
theorem mem_warningsOf {w : Warning} :
    w ∈ warningsOf plan placements total relaxed removed ↔
      placements ≠ [] ∧
        (total < plan.lowerBound ∧ w = .underfilled total plan.lowerBound ∨
          (placements.any fun p => p.fromFallback && !p.isAd) = true ∧ w = .usedFallback ∨
          Placement.music placements ≠ [] ∧ (∃ q ∈ plan.quotas,
            quotaWarning? ((Placement.music placements).map (·.track)) q = some w) ∨
          relaxed = true ∧ w = .separationRelaxed ∨
          ∃ p, removed = some p ∧ w = .trimmed p.track.id) := by
  by_cases hempty : placements = []
  · simp [warningsOf, hempty]
  · simp only [warningsOf, List.isEmpty_iff, hempty, if_false, List.mem_append,
      List.mem_ite_nil_right, List.mem_singleton, List.mem_ite_nil_left, List.mem_filterMap,
      List.map_eq_nil_iff, List.mem_map, Option.mem_toList, or_assoc,
      @eq_comm _ (Warning.trimmed _) w, ne_eq, not_false_eq_true, true_and]

/-- A quota reports nothing but its own shortfall. -/
theorem quotaWarning?_eq_some {music : List Track} {q : Quota} {w : Warning}
    (h : quotaWarning? music q = some w) :
    ∃ share least, w = .quotaUnmet q.field.name q.value share least := by
  unfold quotaWarning? at h
  split at h
  · simp only [Option.ite_none_right_eq_some, Option.some.injEq] at h
    exact ⟨_, _, h.2.symm⟩
  · contradiction

theorem lt_lowerBound_of_underfilled {t bound : Int}
    (h : .underfilled t bound ∈ warningsOf plan placements total relaxed removed) :
    total < plan.lowerBound := by
  obtain ⟨_, h⟩ := mem_warningsOf.mp h
  rcases h with ⟨hshort, _⟩ | ⟨_, h⟩ | ⟨_, q, _, hquota⟩ | ⟨_, h⟩ | ⟨_, _, h⟩
  · exact hshort
  · contradiction
  · obtain ⟨_, _, h⟩ := quotaWarning?_eq_some hquota
    contradiction
  · contradiction
  · contradiction

/-- The relaxed separation is reported of every result that is not empty. -/
theorem separationRelaxed_mem (hsome : placements ≠ []) (hrelaxed : relaxed = true) :
    .separationRelaxed ∈ warningsOf plan placements total relaxed removed :=
  mem_warningsOf.mpr ⟨hsome, Or.inr (Or.inr (Or.inr (Or.inl ⟨hrelaxed, rfl⟩)))⟩

theorem relaxed_of_separationRelaxed
    (h : .separationRelaxed ∈ warningsOf plan placements total relaxed removed) :
    relaxed = true := by
  obtain ⟨_, h⟩ := mem_warningsOf.mp h
  rcases h with ⟨_, h⟩ | ⟨_, h⟩ | ⟨_, q, _, hquota⟩ | ⟨hrelaxed, _⟩ | ⟨_, _, h⟩
  · contradiction
  · contradiction
  · obtain ⟨_, _, h⟩ := quotaWarning?_eq_some hquota
    contradiction
  · exact hrelaxed
  · contradiction

theorem removed_of_trimmed {id : String}
    (h : .trimmed id ∈ warningsOf plan placements total relaxed removed) :
    ∃ p, removed = some p ∧ p.track.id = id := by
  obtain ⟨_, h⟩ := mem_warningsOf.mp h
  rcases h with ⟨_, h⟩ | ⟨_, h⟩ | ⟨_, q, _, hquota⟩ | ⟨_, h⟩ | ⟨p, hp, h⟩
  · contradiction
  · contradiction
  · obtain ⟨_, _, h⟩ := quotaWarning?_eq_some hquota
    contradiction
  · contradiction
  · exact ⟨p, hp, (Warning.trimmed.inj h).symm⟩

end Warnings

/-- A placement that is taken out is reported. -/
theorem trimmed_mem_of_cuts {r : Reckoning} {plan : Plan} {s : State}
    {earlier later : List Placement} {removed : Placement}
    (h : Trim.Cuts r plan.target s.placements earlier removed later) :
    .trimmed removed.track.id ∈ (finish r plan s).warnings := by
  have hsome : (finish r plan s).placements ≠ [] := by
    rw [ne_eq, finish_eq_nil_iff, h.split]
    simp
  have hwarnings : (finish r plan s).warnings =
      warningsOf plan (finish r plan s).placements (finish r plan s).total s.relaxed
        (some removed) := by
    simp only [finish, h.left]
  rw [hwarnings]
  exact mem_warningsOf.mpr ⟨hsome, Or.inr (Or.inr (Or.inr (Or.inr ⟨removed, rfl, rfl⟩)))⟩

end Sequence

deriving instance DecidableEq for Warning

/-! ## A block that is trimmed -/

/-- A song of which only the artist and the duration are known. -/
def Track.song (id artist : String) (duration : Int) : Track :=
  { Track.unknown with id := id, artist := artist, duration := duration }

namespace Sample

/-- Ten minutes with a tolerance of one, and six minutes between two starts of an
artist. -/
def rules : Document :=
  ⟨[("targetMinutes", .int 10), ("durationAccuracy", .int 60),
    ("separationEnabled", .bool true), ("separation", .obj [("artist", .int 6)])]⟩

/-- The plan of the sample. -/
def plan : Plan := Plan.ofDocuments rules .empty 2026

/-- Two songs of one artist, and a short one of another artist that keeps them
apart while the block is built. -/
def pools : Pools :=
  ⟨[.song "a" "X" 300000, .song "b" "Y" 90000, .song "c" "X" 270000], [], []⟩

/-- Coins that never favour the newcomer; the sample has no ties. -/
def coins : Coins := fun _ => false

end Sample

end Rundown
