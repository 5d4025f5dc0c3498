import Mathlib.Data.List.Nodup
import Rundown.Catalog.Database
import Rundown.Catalog.Library
import Rundown.Pools
import Rundown.Proofs.Repetition

/-!
# Pools without repetitions

The pools of a block are gathered so that no track is in them twice, provided
that the catalog answers each query without repetitions: the own music is part
of one answer, and of the fallbacks only those tracks are added that are new.
Whatever a fallback's limit cuts off and however often fallbacks overlap, what
was seen covers what was gathered.  A block that may not repeat its pool then
plays no song twice.  The interstitials are gathered without such care and are
left out here.
-/

namespace Rundown

theorem bind_eq_ok {ε α β : Type} {x : Except ε α} {f : α → Except ε β} {b : β} :
    (x >>= f) = .ok b ↔ ∃ a, x = .ok a ∧ f a = .ok b := by
  cases x <;> simp [bind, Except.bind]

namespace Catalog

/-- No answer of a catalog holds an id twice. -/
def AnswersDistinctly (c : Catalog) : Prop :=
  ∀ scope query tracks, c.tracks scope query = .ok tracks → (tracks.map (·.id)).Nodup

variable {c : Catalog} {station : String} {year : Int} {plan : Plan} {block : Option String}

/-! ## The own music -/

/-- Checking leaves tracks out and changes nothing else. -/
theorem checked_sublist (plan : Plan) (tracks : List Track) :
    (checked plan tracks).Sublist tracks := by
  unfold checked
  split
  · exact List.filter_sublist
  · exact List.Sublist.refl _

theorem nodup_of_music (hanswers : c.AnswersDistinctly) {tracks : List Track}
    (h : c.music station plan = .ok tracks) : (tracks.map (·.id)).Nodup := by
  unfold music at h
  obtain ⟨fetched, hfetched, hkept⟩ := bind_eq_ok.mp h
  have hpart : tracks.Sublist fetched := by
    rw [← Except.ok.inj hkept]
    exact (checked_sublist plan _).trans List.filter_sublist
  exact (hanswers _ _ _ hfetched).sublist (hpart.map _)

/-! ## The music of the fallbacks -/

/-- A pool that is gathered beside the own tracks, with the ids that were seen: no
id is there twice, and all of them were seen. -/
structure Gathered (own : List Track) (pool : List Track × List String) : Prop where
  distinct : ((own ++ pool.1).map (·.id)).Nodup
  seen : ∀ t ∈ own ++ pool.1, t.id ∈ pool.2

variable {own : List Track} {pool : List Track × List String}

theorem gathered_nil (hown : (own.map (·.id)).Nodup) : Gathered own ([], own.map (·.id)) := by
  constructor
  · rw [List.append_nil]
    exact hown
  · intro t ht
    rw [List.append_nil] at ht
    exact List.mem_map_of_mem ht

theorem Gathered.add (h : Gathered own pool) {t : Track} (hnew : t.id ∉ pool.2) :
    Gathered own (pool.1 ++ [t], t.id :: pool.2) := by
  constructor
  · rw [← List.append_assoc, List.map_append, List.nodup_append]
    refine ⟨h.distinct, List.nodup_singleton _, ?_⟩
    intro id hid other hother hsame
    obtain ⟨u, hu, rfl⟩ := List.mem_map.mp hid
    have hid : u.id = t.id := hsame.trans (List.mem_singleton.mp hother)
    apply hnew
    rw [← hid]
    exact h.seen u hu
  · intro u hu
    rw [← List.append_assoc] at hu
    rcases List.mem_append.mp hu with hold | hadded
    · exact List.mem_cons_of_mem _ (h.seen u hold)
    · rw [List.mem_singleton.mp hadded]
      exact List.mem_cons_self

/-- Extending a pool adds only tracks that were not seen, wherever it stops. -/
theorem Gathered.extend (limit : Nat) (tracks : List Track) (h : Gathered own pool)
    (added : Nat) : Gathered own (extend limit added tracks pool) := by
  induction tracks generalizing pool added with
  | nil => exact h
  | cons t rest ih =>
      obtain ⟨taken, seen⟩ := pool
      unfold Catalog.extend
      split
      · exact h
      · split
        · exact ih h added
        · rename_i hnew
          exact ih (h.add (by simpa using hnew)) (added + 1)

theorem Gathered.extendAll {fallbacks : List Fallback} {after : List Track × List String}
    (h : Gathered own pool) (hall : extendAll c station year block fallbacks pool = .ok after) :
    Gathered own after := by
  induction fallbacks generalizing pool with
  | nil =>
      rw [← Except.ok.inj hall]
      exact h
  | cons f rest ih =>
      unfold Catalog.extendAll at hall
      split at hall
      · -- The fallback is passed over.
        exact ih h hall
      · rename_i found _
        obtain ⟨tracks, _, hrest⟩ := bind_eq_ok.mp hall
        exact ih (h.extend f.limit tracks 0) hrest

/-- The pools of a catalog that answers without repetitions have none. -/
theorem pools_distinct (hanswers : c.AnswersDistinctly) {pools : Pools}
    (h : c.pools station year plan block = .ok pools) : pools.Distinct := by
  unfold Catalog.pools at h
  obtain ⟨own, hown, h⟩ := bind_eq_ok.mp h
  obtain ⟨interstitials, _, h⟩ := bind_eq_ok.mp h
  obtain ⟨others, hothers, h⟩ := bind_eq_ok.mp h
  unfold fallback at hothers
  obtain ⟨⟨gathered, seen⟩, hall, hgathered⟩ := bind_eq_ok.mp hothers
  have hsame : gathered = others := Except.ok.inj hgathered
  rw [← Except.ok.inj h, ← hsame]
  exact ((gathered_nil (nodup_of_music hanswers hown)).extendAll hall).distinct

end Catalog

/-! ## Stores without repetitions -/

namespace Random

variable {α : Type}

theorem swapIfInBounds_perm (items : Array α) (i j : Nat) :
    (items.swapIfInBounds i j).Perm items := by
  unfold Array.swapIfInBounds
  split
  · split
    · exact Array.swap_perm _ _
    · exact .refl _
  · exact .refl _

theorem shuffleBelow_perm (word : Nat → UInt32) (count place : Nat) (items : Array α) :
    (shuffleBelow word count place items).Perm items := by
  induction count generalizing place items with
  | zero => exact .refl _
  | succ count ih =>
      unfold shuffleBelow
      split
      · exact .refl _
      · -- Whichever place is drawn, it is exchanged and not overwritten.
        exact (ih _ _).trans (swapIfInBounds_perm items _ _)

/-- Shuffling neither loses nor adds anything, whatever is drawn. -/
theorem shuffle_perm (word : Nat → UInt32) (items : List α) : (shuffle word items).Perm items :=
  (shuffleBelow_perm word items.length 0 items.toArray).toList

end Random

theorem ItemOrder.arrange_perm (order : ItemOrder) (tracks : List Track) :
    (order.arrange tracks).Perm tracks := by
  cases order with
  | stored => exact .refl _
  | shuffled seed => exact Random.shuffle_perm _ tracks

theorem nodup_of_perm {tracks others : List Track} (h : tracks.Perm others)
    (hothers : (others.map (·.id)).Nodup) : (tracks.map (·.id)).Nodup :=
  (h.map _).nodup_iff.mpr hothers

/-- The order in which a catalog serves its tracks brings none back. -/
theorem Catalog.AnswersDistinctly.inOrder {c : Catalog} (h : c.AnswersDistinctly)
    (order : ItemOrder) : (c.inOrder order).AnswersDistinctly := by
  intro scope query tracks htracks
  unfold Catalog.inOrder at htracks
  cases hanswer : c.tracks scope query with
  | error cause => simp [hanswer, Except.map] at htracks
  | ok stored =>
      simp only [hanswer, Except.map, Except.ok.injEq] at htracks
      rw [← htracks]
      exact nodup_of_perm (order.arrange_perm stored) (h scope query stored hanswer)

/-- A library that holds every id once answers without repetitions. -/
theorem Library.answersDistinctly {l : Library} (h : (l.items.map (·.track.id)).Nodup)
    (order : ItemOrder) : (l.catalog order).AnswersDistinctly := by
  intro scope query tracks htracks
  rw [← Except.ok.inj htracks]
  apply nodup_of_perm (order.arrange_perm _)
  unfold matching
  rw [List.map_map]
  exact h.sublist (List.filter_sublist.map _)

/-- A database that holds every id once answers without repetitions. -/
theorem Database.answersDistinctly {d : Database}
    (h : (d.media.map fun row => (track row).id).Nodup) : d.catalog.AnswersDistinctly := by
  intro scope query tracks htracks
  rw [← Except.ok.inj htracks]
  apply nodup_of_perm (List.mergeSort_perm _ _)
  unfold matching
  rw [List.map_map]
  exact h.sublist (List.filter_sublist.map _)

/-! ## Blocks from gathered pools -/

namespace Sample

/-- Ten minutes of one playlist, and of another block when that is not enough. -/
def sharedRules : Document :=
  ⟨[("targetMinutes", .int 10), ("durationAccuracy", .int 60),
    ("sourcePlaylists", .arr [.str "own"]), ("fallbacksEnabled", .bool true),
    ("fallbacks", .arr [.obj [("blockID", .str "other")]])]⟩

/-- Two songs, of which one is on the playlist; the other block asks for both. -/
def sharedLibrary : Library where
  items := [⟨"s", false, .song "a" "X" 300000⟩, ⟨"s", false, .song "b" "Y" 280000⟩]
  playlists := [⟨"own", ["a"]⟩]
  publicStations := []
  blocks := [⟨"other", "", "", .empty, .empty⟩]

/-- The song on the playlist is not gathered again from the other block. -/
def sharedPools : Pools :=
  ⟨[.song "a" "X" 300000], [], [.song "b" "Y" 280000]⟩

end Sample

namespace Sequence

/-- From a catalog that answers without repetitions, a block whose documents do not
allow repeats plays no song twice, whether its songs come from its own pool or from
fallbacks. -/
theorem build_allDifferent (r : Reckoning) (c : Catalog) (station : String)
    (rules sequence : Document) (planYear year : Int) (block : Option String) (coins : Coins)
    (pools : Pools) (hanswers : c.AnswersDistinctly) (hoff : rules.truth "allowRepeats" = false)
    (hpools : c.pools station year (Plan.ofDocuments rules sequence planYear) block = .ok pools) :
    Placement.AllDifferent
      (build r (Plan.ofDocuments rules sequence planYear) pools coins).1.placements := by
  have hdistinct := Catalog.pools_distinct hanswers hpools
  exact finish_allDifferent
    (Filling.filled_allDifferent (f := ⟨r, _, pools.ads, coins⟩) hdistinct hoff)

/-- Two blocks that share a song meet the conditions. -/
theorem build_allDifferent_sample :
    (Sample.sharedLibrary.catalog .stored).AnswersDistinctly ∧
      Sample.sharedRules.truth "allowRepeats" = false ∧
      (Sample.sharedLibrary.catalog .stored).pools "s" 2026
          (Plan.ofDocuments Sample.sharedRules .empty 2026) none = .ok Sample.sharedPools ∧
      Placement.AllDifferent
        (build .exact (Plan.ofDocuments Sample.sharedRules .empty 2026) Sample.sharedPools
          Sample.coins).1.placements := by
  have hanswers : (Sample.sharedLibrary.catalog .stored).AnswersDistinctly :=
    Library.answersDistinctly (by decide) .stored
  have hoff : Sample.sharedRules.truth "allowRepeats" = false := by decide +kernel
  have hpools : (Sample.sharedLibrary.catalog .stored).pools "s" 2026
      (Plan.ofDocuments Sample.sharedRules .empty 2026) none = .ok Sample.sharedPools := rfl
  exact ⟨hanswers, hoff, hpools,
    build_allDifferent .exact (Sample.sharedLibrary.catalog .stored) "s" Sample.sharedRules .empty
      2026 2026 none Sample.coins Sample.sharedPools hanswers hoff hpools⟩

end Sequence

end Rundown
