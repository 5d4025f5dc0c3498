import Mathlib.Data.List.Chain
import Rundown.Proofs.Finish
import Rundown.Proofs.Turns

/-!
# Songs that come again

When the pools hold every track once, a block that may not repeat its pool plays
no song twice, and one that may repeat a pool of several tracks plays no song
twice in a row.  Interstitials do not count: what was played last is remembered
through a break.

The trim keeps the first of these and may lose the second.  It spares a
placement between two of the same track, but it looks at the placements right
before and after, and those may be interstitials.  So a finished block is free
of repeats if and only if the songs before and after the removed one differ.
-/

namespace Rundown

/-- No song follows itself, whether or not interstitials lie between. -/
def Placement.Unrepeated (placements : List Placement) : Prop :=
  (songs placements).IsChain fun t u => t.id ≠ u.id

instance (placements : List Placement) : Decidable (Placement.Unrepeated placements) :=
  inferInstanceAs (Decidable (List.IsChain _ _))

/-- Every music placement is of another track. -/
def Placement.AllDifferent (placements : List Placement) : Prop :=
  ((songs placements).map (·.id)).Nodup

/-- No track is twice in the pools of music, neither in one nor in both. -/
def Pools.Distinct (pools : Pools) : Prop :=
  ((pools.music ++ pools.fallback).map (·.id)).Nodup

instance (pools : Pools) : Decidable pools.Distinct :=
  inferInstanceAs (Decidable (List.Nodup _))

namespace Placement

theorem unrepeated_append {xs ys : List Placement} :
    Unrepeated (xs ++ ys) ↔ Unrepeated xs ∧ Unrepeated ys ∧
      ∀ t ∈ (songs xs).getLast?, ∀ u ∈ (songs ys).head?, t.id ≠ u.id := by
  unfold Unrepeated
  rw [songs_append, List.isChain_append]

theorem unrepeated_layOut_iff {r : Reckoning} {placements : List Placement} :
    Unrepeated (layOut r placements) ↔ Unrepeated placements := by
  unfold Unrepeated
  rw [songs_layOut]

/-- Two parts of a block without repeats have none together exactly if the songs
where they meet differ. -/
theorem unrepeated_join_iff {earlier later : List Placement} {removed : Placement}
    (h : Unrepeated (earlier ++ removed :: later)) :
    Unrepeated (earlier ++ later) ↔
      ∀ t ∈ (songs earlier).getLast?, ∀ u ∈ (songs later).head?, t.id ≠ u.id := by
  rw [List.append_cons] at h
  obtain ⟨hfront, hlater, _⟩ := unrepeated_append.mp h
  have hearlier := (unrepeated_append.mp hfront).1
  rw [unrepeated_append]
  exact ⟨fun hjoined => hjoined.2.2, fun hmeet => ⟨hearlier, hlater, hmeet⟩⟩

theorem isChain_of_nodup {tracks : List Track} (h : (tracks.map (·.id)).Nodup) :
    tracks.IsChain fun t u => t.id ≠ u.id :=
  (List.pairwise_map.mp h).isChain

/-- A block in which every song is another one repeats none. -/
theorem AllDifferent.unrepeated {placements : List Placement} (h : AllDifferent placements) :
    Unrepeated placements :=
  isChain_of_nodup h

end Placement

namespace Pools.Distinct

variable {pools : Pools} {taken left : List Track}

theorem nodup_music (h : pools.Distinct) : (pools.music.map (·.id)).Nodup := by
  unfold Pools.Distinct at h
  rw [List.map_append] at h
  exact (List.nodup_append.mp h).1

theorem nodup_fallback (h : pools.Distinct) : (pools.fallback.map (·.id)).Nodup := by
  unfold Pools.Distinct at h
  rw [List.map_append] at h
  exact (List.nodup_append.mp h).2.1

theorem music_ne_fallback (h : pools.Distinct) {t u : Track} (ht : t ∈ pools.music)
    (hu : u ∈ pools.fallback) : t.id ≠ u.id := by
  unfold Pools.Distinct at h
  rw [List.map_append] at h
  exact (List.nodup_append.mp h).2.2 t.id (List.mem_map_of_mem ht) u.id (List.mem_map_of_mem hu)

end Pools.Distinct

/-- What is taken from a pool without repetitions has none. -/
theorem nodup_of_taken {taken left pool : List Track} (hperm : (taken ++ left).Perm pool)
    (hpool : (pool.map (·.id)).Nodup) : (taken.map (·.id)).Nodup := by
  have hall : ((taken ++ left).map (·.id)).Nodup := (hperm.map _).nodup_iff.mpr hpool
  rw [List.map_append] at hall
  exact (List.nodup_append.mp hall).1

theorem mem_of_taken {taken left pool : List Track} (hperm : (taken ++ left).Perm pool)
    {t : Track} (ht : t ∈ taken) : t ∈ pool :=
  hperm.subset (List.mem_append_left _ ht)

namespace Filling

variable {f : Filling} {pools : Pools}

/-! ## Blocks that may not repeat their pool -/

/-- Without repeats no song comes again, from whichever pool. -/
theorem filled_allDifferent (hdistinct : pools.Distinct) (hoff : f.plan.allowRepeats = false) :
    Placement.AllDifferent (Sequence.filled f pools).state.placements := by
  obtain ⟨ownLeft, hown⟩ := f.primary_takes pools.music hoff
  obtain ⟨taken, left, hsongs, hperm⟩ := f.filled_takes pools
  unfold Placement.AllDifferent
  rw [hsongs, List.map_append, List.nodup_append]
  refine ⟨nodup_of_taken hown hdistinct.nodup_music,
    nodup_of_taken hperm hdistinct.nodup_fallback, ?_⟩
  intro id hid other hother
  obtain ⟨t, ht, rfl⟩ := List.mem_map.mp hid
  obtain ⟨u, hu, rfl⟩ := List.mem_map.mp hother
  exact hdistinct.music_ne_fallback (mem_of_taken hown ht) (mem_of_taken hperm hu)

/-! ## Blocks that may repeat their pool -/

/-- A pool of several tracks has a window, so that the latest song is too recent. -/
theorem windowOf_pos {pool : List Track} (hon : f.plan.allowRepeats = true)
    (hseveral : 2 ≤ pool.length) : 0 < f.windowOf pool := by
  unfold windowOf greatestWindow
  rw [if_pos hon]
  omega

/-- What may be taken again was not among the latest songs. -/
theorem MayTake.le_since {pool : List Track} {s : State} {t : Track} (h : f.MayTake pool s t)
    (hs : s.Recalls f.plan) {count : Nat}
    (hsince : History.since? s.placements t.id = some count) : f.windowOf pool ≤ count := by
  apply Nat.le_of_not_lt
  intro hshort
  have hrecent := h.not_isRecent (Nat.lt_of_le_of_lt (Nat.zero_le count) hshort)
  rw [hs.isRecent_eq] at hrecent
  unfold History.isRecent at hrecent
  rw [hsince] at hrecent
  simp [hshort] at hrecent

/-- With a window nothing is taken that was played last, be it the only candidate. -/
theorem MayTake.ne_last {pool : List Track} {s : State} {t : Track} (h : f.MayTake pool s t)
    (hs : s.Recalls f.plan) (hwindow : 0 < f.windowOf pool) :
    ∀ last ∈ (Placement.songs s.placements).getLast?, last.id ≠ t.id := by
  intro last hlast hsame
  obtain ⟨front, hsongs⟩ := List.getLast?_eq_some_iff.mp hlast
  -- No song came after the latest one, and every window covers that distance.
  have hsince : History.since? s.placements t.id = some 0 := by
    unfold History.since?
    rw [hsongs, List.reverse_append]
    simp [List.findIdx?_cons, hsame]
  have hcovered := h.le_since hs hsince
  omega

/-- What every turn of the own phase keeps when the pool may be repeated. -/
structure Rotating (f : Filling) (pools : Pools) (s : State) : Prop where
  grown : f.Grown pools s
  unrepeated : Placement.Unrepeated s.placements
  known : ∀ t ∈ Placement.songs s.placements, t ∈ pools.music

/-- A turn keeps the rotation, since the memory of the latest song outlasts the
breaks and the passes. -/
theorem Rotating.take {run : Run} {c : Candidate} (h : f.Rotating pools run.state)
    (hwindow : 0 < f.windowOf pools.music) (used : Nat)
    (htake : f.MayTake pools.music run.state c.track) :
    f.Rotating pools
      (f.take false run (run.state.score f.reckoning f.plan c) used).state := by
  have hsongs := f.songs_take false run (run.state.score f.reckoning f.plan c) used
  refine ⟨grown_take false used h.grown htake, ?_, ?_⟩
  · unfold Placement.Unrepeated
    rw [hsongs, List.isChain_append]
    refine ⟨h.unrepeated, List.isChain_singleton _, ?_⟩
    intro last hlast t ht
    obtain rfl := Option.some.inj ht
    exact htake.ne_last h.grown.recalls hwindow last hlast
  · rw [hsongs]
    intro t ht
    rcases List.mem_append.mp ht with hold | hnew
    · exact h.known t hold
    · rw [List.mem_singleton.mp hnew]
      exact htake.known

theorem rotating_primary (hon : f.plan.allowRepeats = true) (hseveral : 2 ≤ pools.music.length) :
    f.Rotating pools (f.primary pools.music f.start).state := by
  have hwindow := windowOf_pos hon hseveral
  have hstart : f.Rotating pools f.start.state :=
    ⟨.start, List.isChain_nil, fun _ ht => absurd ht List.not_mem_nil⟩
  exact passes_invariant (P := fun run => f.Rotating pools run.state)
    (fun _ _ used h htake => h.take hwindow used htake) _ hstart

/-- A block repeats no song before it is trimmed. -/
theorem filled_unrepeated (hdistinct : pools.Distinct)
    (hseveral : f.plan.allowRepeats = true → 2 ≤ pools.music.length) :
    Placement.Unrepeated (Sequence.filled f pools).state.placements := by
  cases hmode : f.plan.allowRepeats with
  | false => exact (filled_allDifferent hdistinct hmode).unrepeated
  | true =>
      have hown := rotating_primary hmode (hseveral hmode)
      obtain ⟨taken, left, hsongs, hperm⟩ := f.filled_takes pools
      unfold Placement.Unrepeated
      rw [hsongs, List.isChain_append]
      refine ⟨hown.unrepeated,
        Placement.isChain_of_nodup (nodup_of_taken hperm hdistinct.nodup_fallback), ?_⟩
      -- Where the phases meet, a song of one pool is followed by one of the other.
      intro t ht u hu
      exact hdistinct.music_ne_fallback (hown.known t (List.mem_of_getLast? ht))
        (mem_of_taken hperm (List.mem_of_head? hu))

end Filling

/-! ## Finished blocks -/

/-- The songs before and after the placement that a trim takes out differ. -/
def Trim.SparesRepeats (r : Reckoning) (target : Int) (placements : List Placement) : Prop :=
  ∀ earlier removed later, Cuts r target placements earlier removed later →
    ∀ t ∈ (Placement.songs earlier).getLast?, ∀ u ∈ (Placement.songs later).head?, t.id ≠ u.id

namespace Sample

/-- Ten minutes with a tolerance of one, from a pool that may be repeated, with a
break after every second song. -/
def rotationRules : Document :=
  ⟨[("targetMinutes", .int 10), ("durationAccuracy", .int 60), ("allowRepeats", .bool true),
    ("interstitials", .obj [("enabled", .bool true), ("genre", .str "Ads"), ("every", .int 2)])]⟩

/-- The plan of a block whose songs take turns. -/
def rotation : Plan := Plan.ofDocuments rotationRules .empty 2026

/-- A long and a short song that take turns, and an interstitial. -/
def rotationPools : Pools :=
  ⟨[.song "a" "X" 270000, .song "b" "Y" 50000], [.song "ad" "Z" 40000], []⟩

end Sample

namespace Sequence

/-- The songs of a finished block are those of the built one, perhaps without one. -/
theorem songs_finish_sublist (r : Reckoning) (plan : Plan) (s : State) :
    (Placement.songs (finish r plan s).placements).Sublist (Placement.songs s.placements) := by
  rcases finish_cases r plan s with hkept | ⟨earlier, removed, later, hcuts, hfinish⟩
  · rw [hkept, Placement.songs_layOut]
  · rw [hfinish, Placement.songs_layOut, hcuts.split, List.append_cons, Placement.songs_append,
      Placement.songs_append, Placement.songs_append]
    exact (List.sublist_append_left _ _).append (List.Sublist.refl _)

/-- Finishing brings no song back. -/
theorem finish_allDifferent {r : Reckoning} {plan : Plan} {s : State}
    (h : Placement.AllDifferent s.placements) :
    Placement.AllDifferent (finish r plan s).placements :=
  h.sublist ((songs_finish_sublist r plan s).map _)

/-- Finishing leaves a block free of repeats exactly if the trim spares them. -/
theorem finish_unrepeated_iff {r : Reckoning} {plan : Plan} {s : State}
    (h : Placement.Unrepeated s.placements) :
    Placement.Unrepeated (finish r plan s).placements ↔
      Trim.SparesRepeats r plan.target s.placements := by
  rw [finish_iff (fun _ => Placement.unrepeated_layOut_iff) h]
  refine forall₃_congr fun earlier removed later => imp_congr_right fun hcuts => ?_
  rw [hcuts.split] at h
  exact Placement.unrepeated_join_iff h

/-- From pools without repetitions, of several tracks if they may be repeated, a
block is built without a repeat, and the result has none exactly if the trim
leaves different songs next to each other. -/
theorem build_unrepeated_iff (r : Reckoning) (plan : Plan) (pools : Pools) (coins : Coins)
    (hdistinct : pools.Distinct)
    (hseveral : plan.allowRepeats = true → 2 ≤ pools.music.length) :
    Placement.Unrepeated (untrimmed r plan pools coins) ∧
      (Placement.Unrepeated (build r plan pools coins).1.placements ↔
        Trim.SparesRepeats r plan.target (untrimmed r plan pools coins)) := by
  have hfilled : Placement.Unrepeated (untrimmed r plan pools coins) :=
    Filling.filled_unrepeated hdistinct hseveral
  exact ⟨hfilled, finish_unrepeated_iff hfilled⟩

/-- Two songs that take turns meet the conditions. -/
theorem build_unrepeated_sample :
    Sample.rotationPools.Distinct ∧ Sample.rotation.allowRepeats = true ∧
      2 ≤ Sample.rotationPools.music.length ∧
      Placement.Unrepeated
        (untrimmed .exact Sample.rotation Sample.rotationPools Sample.coins) ∧
      (Placement.Unrepeated
          (build .exact Sample.rotation Sample.rotationPools Sample.coins).1.placements ↔
        Trim.SparesRepeats .exact Sample.rotation.target
          (untrimmed .exact Sample.rotation Sample.rotationPools Sample.coins)) := by
  have hdistinct : Sample.rotationPools.Distinct := by decide
  have hon : Sample.rotation.allowRepeats = true := by decide +kernel
  have hseveral : 2 ≤ Sample.rotationPools.music.length := by decide
  exact ⟨hdistinct, hon, hseveral,
    build_unrepeated_iff .exact Sample.rotation Sample.rotationPools Sample.coins hdistinct
      (fun _ => hseveral)⟩

/-- A song can follow itself across a break: the block is built as long, short,
interstitial, long, and the trim removes the short song. -/
theorem not_forall_build_unrepeated :
    ¬ ∀ (rules sequence : Document) (year : Int) (pools : Pools) (coins : Coins),
      let plan := Plan.ofDocuments rules sequence year
      pools.Distinct → pools.AllTimed →
        (plan.allowRepeats = true → 2 ≤ pools.music.length) →
          Placement.Unrepeated (build .exact plan pools coins).1.placements := by
  intro h
  have hunrepeated := h Sample.rotationRules .empty 2026 Sample.rotationPools Sample.coins
    (by decide) (by decide) (fun _ => by decide)
  have hrepeated : ¬ Placement.Unrepeated
      (build .exact Sample.rotation Sample.rotationPools Sample.coins).1.placements := by
    decide +kernel
  exact hrepeated hunrepeated

end Sequence

end Rundown
