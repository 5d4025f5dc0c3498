import Rundown.Proofs.Provenance

/-!
# The pool of the fallbacks

The music of the fallbacks is gathered with a memory of the ids that were seen and a
count of the tracks that a fallback has added.  Here it is described without either:
each block that a fallback leads to gives a share, and the shares follow one another.
A share is taken from the block's own music without the tracks whose id is known
already, be it from the own pool of the block that is built, from an earlier share or
from an earlier track of the same music; of what is left the limit takes the first.

So repetitions do not count toward a limit, and what a limit cuts off is not known to
the blocks that follow.  That the blocks may have fallbacks in their turn makes no
difference: of their rules only the criteria matter.
-/

namespace Rundown

namespace Catalog

/-! ## Shares -/

/-- The tracks that bring a new id: it was not heard before the list, and no earlier
track of the list has it. -/
def unheard (heard : List String) : List Track → List Track
  | [] => []
  | t :: rest =>
      if t.id ∈ heard then unheard (t.id :: heard) rest else t :: unheard (t.id :: heard) rest

/-- A block that a fallback leads to: the most tracks that are taken from it, where
zero sets no limit, and its own music. -/
structure Source where
  limit : Nat
  music : List Track

/-- What a source gives after the ids that were heard. -/
def Source.share (s : Source) (heard : List String) : List Track :=
  if s.limit = 0 then unheard heard s.music else (unheard heard s.music).take s.limit

/-- What sources give one after the other; each hears what the earlier ones gave. -/
def shares (heard : List String) : List Source → List (List Track)
  | [] => []
  | s :: rest => s.share heard :: shares (heard ++ (s.share heard).map (·.id)) rest

/-- Every query has an answer. -/
def AnswersAll (c : Catalog) : Prop :=
  ∀ scope query, ∃ tracks, c.tracks scope query = .ok tracks

/-- The music that a plan asks for, nothing if the query for it fails. -/
def musicOf (c : Catalog) (station : String) (plan : Plan) : List Track :=
  match c.music station plan with
  | .ok tracks => tracks
  | .error _ => []

/-- The fallbacks that are followed, with the blocks they lead to: those that do not
name the block itself and whose block is found. -/
def followed (c : Catalog) (block : Option String) (fallbacks : List Fallback) :
    List (Fallback × Block) :=
  fallbacks.filterMap fun f =>
    match c.block? f.block with
    | .ok (some found) => if block = some f.block then none else some (f, found)
    | _ => none

/-- The sources that the fallbacks of a block lead to, in order. -/
def sources (c : Catalog) (station : String) (year : Int) (block : Option String)
    (fallbacks : List Fallback) : List Source :=
  (c.followed block fallbacks).map fun (f, found) =>
    ⟨f.limit, c.musicOf station (Plan.ofDocuments found.rules found.sequence year)⟩

variable {c : Catalog} {station : String} {year : Int} {block : Option String}
variable {heard : List String} {tracks : List Track} {t : Track}

theorem followed_eq (c : Catalog) (block : Option String) (fallbacks : List Fallback) :
    c.followed block fallbacks =
      fallbacks.filterMap fun f => (c.referred? block f).map fun found => (f, found) := by
  unfold followed referred?
  apply List.filterMap_congr
  intro f _
  split
  · rename_i found hfound
    rw [hfound]
    split <;> rfl
  · rename_i hother
    split
    · rfl
    · split
      · rename_i found hfound
        cases found with
        | none => rfl
        | some found => exact absurd hfound (hother found)
      · rfl

theorem followed_cons_of_none {f : Fallback} (h : c.referred? block f = none)
    (rest : List Fallback) : c.followed block (f :: rest) = c.followed block rest := by
  rw [followed_eq, followed_eq, List.filterMap_cons, h]
  rfl

theorem followed_cons_of_some {f : Fallback} {found : Block}
    (h : c.referred? block f = some found) (rest : List Fallback) :
    c.followed block (f :: rest) = (f, found) :: c.followed block rest := by
  rw [followed_eq, followed_eq, List.filterMap_cons, h]
  rfl

theorem AnswersAll.music_eq (h : c.AnswersAll) (station : String) (plan : Plan) :
    c.music station plan = .ok (c.musicOf station plan) := by
  obtain ⟨fetched, hfetched⟩ := h (musicScope station plan) (musicQuery plan)
  have hmusic : c.music station plan = .ok (checked plan (playable fetched)) :=
    bind_eq_ok.mpr ⟨fetched, hfetched, rfl⟩
  unfold musicOf
  rw [hmusic]

theorem mem_of_mem_unheard (h : t ∈ unheard heard tracks) : t ∈ tracks ∧ t.id ∉ heard := by
  induction tracks generalizing heard with
  | nil => cases h
  | cons first rest ih =>
      unfold unheard at h
      split at h
      · obtain ⟨hrest, hnew⟩ := ih h
        exact ⟨List.mem_cons_of_mem _ hrest, fun hmem => hnew (List.mem_cons_of_mem _ hmem)⟩
      · rename_i hfirst
        rcases List.mem_cons.mp h with rfl | h
        · exact ⟨List.mem_cons_self, hfirst⟩
        · obtain ⟨hrest, hnew⟩ := ih h
          exact ⟨List.mem_cons_of_mem _ hrest, fun hmem => hnew (List.mem_cons_of_mem _ hmem)⟩

theorem unheard_congr {seen heard : List String} (h : ∀ id, id ∈ seen ↔ id ∈ heard)
    (tracks : List Track) : unheard seen tracks = unheard heard tracks := by
  induction tracks generalizing seen heard with
  | nil => rfl
  | cons t rest ih =>
      have hrest : unheard (t.id :: seen) rest = unheard (t.id :: heard) rest :=
        ih fun id => by rw [List.mem_cons, List.mem_cons, h]
      simp only [unheard, h, hrest]

theorem unheard_cons_of_not_mem (h : t.id ∉ heard) (rest : List Track) :
    unheard heard (t :: rest) = t :: unheard (t.id :: heard) rest := by
  rw [unheard, if_neg h]

/-- Hearing a known id again changes nothing. -/
theorem unheard_cons_of_mem (h : t.id ∈ heard) (rest : List Track) :
    unheard heard (t :: rest) = unheard heard rest := by
  rw [unheard, if_pos h]
  apply unheard_congr
  intro id
  rw [List.mem_cons]
  exact ⟨fun hid => hid.elim (fun hsame => hsame ▸ h) fun hmem => hmem, Or.inr⟩

theorem nodup_unheard (heard : List String) (tracks : List Track) :
    ((unheard heard tracks).map (·.id)).Nodup := by
  induction tracks generalizing heard with
  | nil => exact List.nodup_nil
  | cons first rest ih =>
      unfold unheard
      split
      · exact ih _
      · refine List.nodup_cons.mpr ⟨?_, ih _⟩
        intro hmem
        obtain ⟨t, ht, hid⟩ := List.mem_map.mp hmem
        apply (mem_of_mem_unheard ht).2
        rw [hid]
        exact List.mem_cons_self

theorem share_sublist (s : Source) (heard : List String) :
    (s.share heard).Sublist (unheard heard s.music) := by
  unfold Source.share
  split
  · exact List.Sublist.refl _
  · exact List.take_sublist _ _

/-- Tracks that were passed over because their id was heard take no room of a limit. -/
theorem length_share {s : Source} (hlimit : s.limit ≠ 0) (heard : List String) :
    (s.share heard).length = min s.limit (unheard heard s.music).length := by
  rw [Source.share, if_neg hlimit, List.length_take]

/-- What a limit cuts off is not heard by the sources that follow. -/
theorem not_heard_of_cut {s : Source} (ht : t ∈ unheard heard s.music)
    (hcut : t ∉ s.share heard) : t.id ∉ heard ++ (s.share heard).map (·.id) := by
  intro hmem
  rcases List.mem_append.mp hmem with hheard | hgiven
  · exact (mem_of_mem_unheard ht).2 hheard
  · obtain ⟨u, hu, hid⟩ := List.mem_map.mp hgiven
    -- No two tracks that bring a new id share it.
    have hsame : u = t := List.inj_on_of_nodup_map (nodup_unheard heard s.music)
      ((share_sublist s heard).mem hu) ht hid
    rw [hsame] at hu
    exact hcut hu

theorem shares_congr {seen heard : List String} (h : ∀ id, id ∈ seen ↔ id ∈ heard)
    (sources : List Source) : shares seen sources = shares heard sources := by
  induction sources generalizing seen heard with
  | nil => rfl
  | cons s rest ih =>
      have hshare : s.share seen = s.share heard := by
        unfold Source.share
        rw [unheard_congr h]
      have hrest : shares (seen ++ (s.share heard).map (·.id)) rest =
          shares (heard ++ (s.share heard).map (·.id)) rest :=
        ih fun id => by rw [List.mem_append, List.mem_append, h]
      rw [shares, shares, hshare, hrest]

theorem mem_of_mem_shares {sources : List Source} (h : t ∈ (shares heard sources).flatten) :
    (∃ s ∈ sources, t ∈ s.music) ∧ t.id ∉ heard := by
  induction sources generalizing heard with
  | nil => cases h
  | cons s rest ih =>
      rcases List.mem_append.mp h with hfirst | hrest
      · obtain ⟨hmusic, hnew⟩ := mem_of_mem_unheard ((share_sublist s heard).mem hfirst)
        exact ⟨⟨s, List.mem_cons_self, hmusic⟩, hnew⟩
      · obtain ⟨⟨other, hother, hmusic⟩, hnew⟩ := ih hrest
        exact ⟨⟨other, List.mem_cons_of_mem _ hother, hmusic⟩,
          fun hmem => hnew (List.mem_append_left _ hmem)⟩

/-- No id is given twice, by one source or by several. -/
theorem nodup_shares (heard : List String) (sources : List Source) :
    ((shares heard sources).flatten.map (·.id)).Nodup := by
  induction sources generalizing heard with
  | nil => exact List.nodup_nil
  | cons s rest ih =>
      unfold shares
      rw [List.flatten_cons, List.map_append, List.nodup_append]
      refine ⟨(nodup_unheard heard s.music).sublist ((share_sublist s heard).map _), ih _, ?_⟩
      intro id hid other hother hsame
      obtain ⟨t, ht, rfl⟩ := List.mem_map.mp hother
      apply (mem_of_mem_shares ht).2
      rw [← hsame]
      exact List.mem_append_right _ hid

/-! ## What gathering adds -/

/-- The first of some tracks for which a limit leaves room after those already added. -/
def roomFor (limit added : Nat) (tracks : List Track) : List Track :=
  if limit = 0 then tracks else tracks.take (limit - added)

theorem roomFor_cons {limit added : Nat} (h : ¬ (0 < limit && limit ≤ added) = true) (t : Track)
    (rest : List Track) : roomFor limit added (t :: rest) = t :: roomFor limit (added + 1) rest := by
  unfold roomFor
  split
  · rfl
  · have hroom : limit - added = limit - (added + 1) + 1 := by
      simp only [Bool.and_eq_true, decide_eq_true_eq] at h
      omega
    rw [hroom, List.take_succ_cons]

theorem roomFor_of_full {limit added : Nat} (h : (0 < limit && limit ≤ added) = true)
    (tracks : List Track) : roomFor limit added tracks = [] := by
  simp only [Bool.and_eq_true, decide_eq_true_eq] at h
  unfold roomFor
  rw [if_neg (by omega), Nat.sub_eq_zero_of_le h.2, List.take_zero]

/-- Extending a pool adds the first of the tracks that are new, and notes their ids. -/
theorem extend_eq (limit added : Nat) (tracks pool : List Track) (seen : List String) :
    ∃ after, extend limit added tracks (pool, seen) =
        (pool ++ roomFor limit added (unheard seen tracks), after) ∧
      ∀ id, id ∈ after ↔
        id ∈ seen ∨ id ∈ (roomFor limit added (unheard seen tracks)).map (·.id) := by
  induction tracks generalizing added pool seen with
  | nil =>
      have hnothing : roomFor limit added (unheard seen []) = [] := by
        unfold roomFor unheard
        split <;> simp
      rw [hnothing]
      exact ⟨seen, by rw [List.append_nil]; rfl, by simp⟩
  | cons t rest ih =>
      unfold extend
      split
      · rename_i hfull
        rw [roomFor_of_full hfull]
        exact ⟨seen, by rw [List.append_nil], by simp⟩
      · rename_i hroom
        by_cases hseen : t.id ∈ seen
        · rw [if_pos (List.contains_iff_mem.mpr hseen), unheard_cons_of_mem hseen]
          exact ih added pool seen
        · obtain ⟨after, hextend, hafter⟩ := ih (added + 1) (pool ++ [t]) (t.id :: seen)
          rw [if_neg (fun h => hseen (List.contains_iff_mem.mp h)), hextend,
            unheard_cons_of_not_mem hseen, roomFor_cons hroom]
          refine ⟨after, by rw [List.append_assoc, List.singleton_append], ?_⟩
          intro id
          rw [hafter, List.map_cons, List.mem_cons, List.mem_cons, or_assoc, or_left_comm]

theorem extend_share (s : Source) (pool : List Track) (seen : List String) :
    ∃ after, extend s.limit 0 s.music (pool, seen) = (pool ++ s.share seen, after) ∧
      ∀ id, id ∈ after ↔ id ∈ seen ++ (s.share seen).map (·.id) := by
  obtain ⟨after, hextend, hafter⟩ := extend_eq s.limit 0 s.music pool seen
  exact ⟨after, hextend, fun id => (hafter id).trans List.mem_append.symm⟩

/-- Following the fallbacks adds the shares of their sources, as long as every query
is answered. -/
theorem extendAll_eq (hanswers : c.AnswersAll) (station : String) (year : Int)
    (block : Option String) (fallbacks : List Fallback) (pool : List Track) (seen : List String) :
    ∃ after, c.extendAll station year block fallbacks (pool, seen) =
      .ok (pool ++ (shares seen (c.sources station year block fallbacks)).flatten, after) := by
  induction fallbacks generalizing pool seen with
  | nil =>
      refine ⟨seen, ?_⟩
      change _ = Except.ok (pool ++ [], seen)
      rw [List.append_nil]
      rfl
  | cons f rest ih =>
      unfold extendAll sources
      cases hfound : c.referred? block f with
      | none =>
          rw [followed_cons_of_none hfound]
          exact ih pool seen
      | some found =>
          rw [followed_cons_of_some hfound]
          let plan := Plan.ofDocuments found.rules found.sequence year
          let s : Source := ⟨f.limit, c.musicOf station plan⟩
          obtain ⟨noted, hextend, hnoted⟩ := extend_share s pool seen
          obtain ⟨after, hrest⟩ := ih (pool ++ s.share seen) noted
          -- What was noted and what was heard are the same ids.
          rw [shares_congr hnoted, List.append_assoc] at hrest
          refine ⟨after, bind_eq_ok.mpr ⟨s.music, hanswers.music_eq station plan, ?_⟩⟩
          change c.extendAll station year block rest (extend s.limit 0 s.music (pool, seen)) = _
          rw [hextend]
          exact hrest

/-! ## Fallbacks of fallbacks -/

/-- The fields of the rules that name fallbacks. -/
def fallbackKeys : List String :=
  ["fallbacksEnabled", "fallbacks"]

/-- Rules that differ in their fallbacks at most. -/
def AlikeButFallbacks (d e : Document) : Prop :=
  ∀ key, key ∉ fallbackKeys → d.get? key = e.get? key

/-- The catalog with other rules in its blocks. -/
def withRules (c : Catalog) (rules : Block → Document) : Catalog :=
  { c with
    block? := fun id => (c.block? id).map fun found =>
      found.map fun b => { b with rules := rules b } }

/-- What the tracks of a block must be like is no matter of its fallbacks. -/
theorem criteriaOf_congr {d e : Document} (h : AlikeButFallbacks d e) (year : Int) :
    Plan.criteriaOf d year = Plan.criteriaOf e year := by
  have hvalues : ∀ key ∈ Plan.criteriaKeys, key ∉ fallbackKeys := by decide
  have hranges : ∀ key ∈ Plan.rangeKeys, key ∉ fallbackKeys := by decide
  apply Plan.criteriaOf_congr
  · exact fun key hkey => h key (hvalues key hkey)
  · intro key hkey
    rw [Plan.boundsAt?_eq, Plan.boundsAt?_eq, h key (hranges key hkey)]
  · exact Plan.truth_congr (h "excludeExplicit" (by decide))

/-- A query looks at nothing of a plan but its criteria. -/
theorem music_congr (c : Catalog) (station : String) {plan plan' : Plan}
    (h : plan.criteria = plan'.criteria) : c.music station plan = c.music station plan' := by
  unfold music musicScope musicQuery checked
  rw [h]

theorem referred?_withRules (c : Catalog) (rules : Block → Document) (block : Option String)
    (f : Fallback) : (c.withRules rules).referred? block f =
      (c.referred? block f).map fun b => { b with rules := rules b } := by
  unfold referred? withRules
  split
  · rfl
  · dsimp only
    cases c.block? f.block with
    | ok found => rfl
    | error cause => rfl

theorem sources_withRules {rules : Block → Document}
    (hrules : ∀ b, AlikeButFallbacks (rules b) b.rules) (fallbacks : List Fallback) :
    (c.withRules rules).sources station year block fallbacks =
      c.sources station year block fallbacks := by
  unfold sources
  rw [followed_eq, followed_eq, List.map_filterMap, List.map_filterMap]
  apply List.filterMap_congr
  intro f _
  rw [referred?_withRules, Option.map_map, Option.map_map, Option.map_map]
  apply Option.map_congr
  intro found _
  have hmusic : (c.withRules rules).music station (Plan.ofDocuments (rules found) found.sequence
      year) = c.music station (Plan.ofDocuments found.rules found.sequence year) :=
    music_congr c station (criteriaOf_congr (hrules found) year)
  simp only [Function.comp_apply, musicOf, hmusic]

/-! ## The pool -/

variable {plan : Plan} {own : List Track}

/-- How the pool of the fallbacks is composed. -/
structure Composed (c : Catalog) (station : String) (year : Int) (plan : Plan)
    (block : Option String) (own pool : List Track) : Prop where
  distinct : (pool.map (·.id)).Nodup
  new : ∀ t ∈ pool, t.id ∉ own.map (·.id)
  timed : ∀ t ∈ pool, 0 < t.duration
  /-- Each source adds its share to the own tracks and the earlier shares. -/
  shared : pool = (shares (own.map (·.id)) (c.sources station year block plan.fallbacks)).flatten
  /-- Repetitions take no room of a limit. -/
  filled : ∀ s ∈ c.sources station year block plan.fallbacks, s.limit ≠ 0 → ∀ heard,
    (s.share heard).length = min s.limit (unheard heard s.music).length
  /-- What a limit cuts off is not among the ids that the later sources hear. -/
  left : ∀ s ∈ c.sources station year block plan.fallbacks, ∀ heard,
    ∀ t ∈ unheard heard s.music, t ∉ s.share heard → t.id ∉ heard ++ (s.share heard).map (·.id)
  /-- The fallbacks of the blocks that are followed make no difference. -/
  flat : ∀ rules : Block → Document, (∀ b, AlikeButFallbacks (rules b) b.rules) →
    (c.withRules rules).fallback station year plan block own = .ok pool

theorem fallback_eq (hanswers : c.AnswersAll) (plan : Plan) (own : List Track) :
    c.fallback station year plan block own =
      .ok (shares (own.map (·.id)) (c.sources station year block plan.fallbacks)).flatten := by
  obtain ⟨after, hall⟩ :=
    extendAll_eq hanswers station year block plan.fallbacks [] (own.map (·.id))
  exact bind_eq_ok.mpr ⟨_, hall, rfl⟩

theorem timed_of_mem_musicOf (ht : t ∈ c.musicOf station plan) : 0 < t.duration := by
  unfold musicOf at ht
  split at ht
  · rename_i tracks hmusic
    obtain ⟨_, _, _, htimed, _⟩ := exists_of_mem_music hmusic ht
    exact htimed
  · cases ht

/-- A catalog that answers every query gives the fallbacks of a block one pool, which
is composed of the shares of their sources. -/
theorem fallback_composed (c : Catalog) (station : String) (year : Int) (plan : Plan)
    (block : Option String) (own : List Track) (hanswers : c.AnswersAll) :
    ∃ pool, c.fallback station year plan block own = .ok pool ∧
      Composed c station year plan block own pool := by
  refine ⟨_, fallback_eq hanswers plan own, nodup_shares _ _, ?_, ?_, rfl, ?_, ?_, ?_⟩
  · exact fun t ht => (mem_of_mem_shares ht).2
  · intro t ht
    obtain ⟨⟨s, hs, hmusic⟩, _⟩ := mem_of_mem_shares ht
    obtain ⟨_, _, rfl⟩ := List.mem_map.mp hs
    exact timed_of_mem_musicOf hmusic
  · exact fun s _ hlimit heard => length_share hlimit heard
  · exact fun s _ heard t ht hcut => not_heard_of_cut ht hcut
  · intro rules hrules
    have hchanged : (c.withRules rules).AnswersAll := hanswers
    rw [fallback_eq hchanged, sources_withRules hrules]

end Catalog

namespace Sample

/-- The rules of a block that follows itself, a missing block, one song of another
block, and a third block without a limit. -/
def followingRules : Document :=
  ⟨[("sourcePlaylists", .str "own"), ("fallbacksEnabled", .bool true),
    ("fallbacks", .arr [.obj [("blockID", .str "self")], .obj [("blockID", .str "missing")],
      .obj [("blockID", .str "few"), ("limit", .int 1)], .obj [("blockID", .str "all")]])]⟩

/-- Three songs of which the first is the block's own.  The block of which one song is
taken asks for all of them, and follows the block itself. -/
def followedLibrary : Library where
  items := [⟨"s", false, .song "a" "X" 300000⟩, ⟨"s", false, .song "b" "Y" 280000⟩,
    ⟨"s", false, .song "c" "Z" 260000⟩]
  playlists := [⟨"own", ["a"]⟩]
  publicStations := []
  blocks := [⟨"few", "", "", ⟨[("fallbacksEnabled", .bool true),
    ("fallbacks", .arr [.obj [("blockID", .str "self")]])]⟩, .empty⟩,
    ⟨"all", "", "", .empty, .empty⟩]

end Sample

namespace Catalog

/-- The own song takes no room of the limit, and the song that the limit cuts off is
taken from the block that follows. -/
theorem fallback_composed_sample :
    (Sample.followedLibrary.catalog .stored).AnswersAll ∧
      ∃ pool, (Sample.followedLibrary.catalog .stored).fallback "s" 2026
          (Plan.ofDocuments Sample.followingRules .empty 2026) (some "self")
          [.song "a" "X" 300000] = .ok pool ∧
        Composed (Sample.followedLibrary.catalog .stored) "s" 2026
          (Plan.ofDocuments Sample.followingRules .empty 2026) (some "self")
          [.song "a" "X" 300000] pool ∧
        pool = [.song "b" "Y" 280000, .song "c" "Z" 260000] := by
  have hanswers : (Sample.followedLibrary.catalog .stored).AnswersAll := fun _ _ => ⟨_, rfl⟩
  obtain ⟨pool, hpool, hcomposed⟩ := fallback_composed (Sample.followedLibrary.catalog .stored)
    "s" 2026 (Plan.ofDocuments Sample.followingRules .empty 2026) (some "self")
    [.song "a" "X" 300000] hanswers
  exact ⟨hanswers, pool, hpool, hcomposed, hcomposed.shared.trans rfl⟩

end Catalog

end Rundown
