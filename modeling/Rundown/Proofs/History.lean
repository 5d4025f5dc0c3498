import Mathlib.Algebra.Order.Ring.Int
import Mathlib.Data.List.Basic
import Mathlib.Data.List.Induction
import Rundown.Proofs.Layout

/-!
# What a state remembers of its placements

A state under construction keeps counts, the latest track, an ordinal for each
track and the latest start for each key, so that a candidate is judged without
going through the placements.  Here the same questions are asked of the list of
placements alone, and both give the same answers after any calls that place
music and interstitials, whether or not the building of a block would make them.
The counts and the memory agree under every reckoning; the questions about times
agree with times as integers.
-/

namespace Rundown

/-- A list with one more entry is split at that entry, or before it. -/
theorem split_concat {α : Type} {xs earlier later : List α} {x y : α}
    (h : xs ++ [y] = earlier ++ x :: later) :
    earlier = xs ∧ y = x ∨ ∃ front, xs = earlier ++ x :: front := by
  rcases List.eq_nil_or_concat later with rfl | ⟨front, last, rfl⟩
  · obtain ⟨hfront, hlast⟩ := List.append_inj' h rfl
    exact Or.inl ⟨hfront.symm, (List.cons.inj hlast).1⟩
  · rw [List.concat_eq_append, ← List.cons_append, ← List.append_assoc] at h
    exact Or.inr ⟨front, (List.append_inj' h rfl).1⟩

namespace Placement

/-- The tracks of the music among placements. -/
def songs (placements : List Placement) : List Track :=
  (music placements).map (·.track)

@[simp]
theorem songs_append (xs ys : List Placement) : songs (xs ++ ys) = songs xs ++ songs ys := by
  unfold songs
  rw [music_append, List.map_append]

/-- Laying out turns neither music into interstitials nor the other way round. -/
theorem map_music_layOutFrom {β : Type} (g : Placement → β)
    (hg : ∀ p start finish, g { p with startsAt := start, endsAt := finish } = g p)
    (r : Reckoning) (start : Int) (placements : List Placement) :
    (music (layOutFrom r start placements)).map g = (music placements).map g := by
  induction placements generalizing start with
  | nil => rfl
  | cons p rest ih =>
      have hrest := ih (r.hold (start + p.track.duration))
      unfold music at *
      cases hkind : p.isAd with
      | true => simpa [layOutFrom, isMusic, hkind] using hrest
      | false =>
          have hfirst := hg p start (r.hold (start + p.track.duration))
          rw [hkind] at hfirst
          simpa [layOutFrom, isMusic, hkind, hfirst] using hrest

/-- Laying placements out anew changes no track. -/
@[simp]
theorem songs_layOut (r : Reckoning) (placements : List Placement) :
    songs (layOut r placements) = songs placements :=
  map_music_layOutFrom (·.track) (fun _ _ _ => rfl) r 0 placements

theorem totalFrom_exact_eq_add_sum (start : Int) (placements : List Placement) :
    totalFrom .exact start placements = start + (placements.map (·.track.duration)).sum := by
  induction placements generalizing start with
  | nil => simp [totalFrom]
  | cons p rest ih =>
      simp only [totalFrom, Reckoning.hold_exact, ih, List.map_cons, List.sum_cons]
      omega

end Placement

/-! ## Questions to a list of placements -/

namespace History

variable (plan : Plan) (placements : List Placement)

/-- The time that placements take together. -/
def total : Int :=
  (placements.map (·.track.duration)).sum

/-- An interstitial fits when the total stays within the upper bound. -/
def adFits (t : Track) : Bool :=
  total placements + t.duration ≤ plan.upperBound

/-- Music fits when the total stays within the upper bound, and always as the
first placement. -/
def fits (t : Track) : Bool :=
  placements.isEmpty || adFits plan placements t

/-- The latest song is the track. -/
def isImmediateRepeat (t : Track) : Bool :=
  (Placement.songs placements).getLast?.map (·.id) == some t.id

/-- How many songs came after the latest one of an id. -/
def since? (id : String) : Option Nat :=
  (Placement.songs placements).reverse.findIdx? (·.id == id)

/-- Fewer songs than the window came after the latest one with the track's id. -/
def isRecent (window : Nat) (t : Track) : Bool :=
  (since? placements t.id).any (· < window)

/-- How many songs a quota covers. -/
def covered (q : Quota) : Nat :=
  (Placement.songs placements).countP q.covers

/-- Some quota that covers the track has its greatest share of the songs. -/
def exceedsQuota (t : Track) : Bool :=
  !(Placement.songs placements).isEmpty &&
    plan.quotas.any fun q =>
      match q.maxShare with
      | some share =>
          share ≤ State.percent (covered placements q) (Placement.songs placements).length &&
            q.covers t
      | none => false

/-- The start of the latest music with a key of an attribute. -/
def lastStart? (a : Attribute) (key : String) : Option Int :=
  ((Placement.music placements).reverse.find? fun p => a.key? p.track == some key).map (·.startsAt)

/-- What is missing to the gap after the latest music that shares the track's key;
negative when the gap has passed. -/
def missing? (t : Track) (a : Attribute) (gap : Int) : Option Int :=
  ((a.key? t).bind (lastStart? placements a)).map fun start => gap - (total placements - start)

/-- The most that is missing to a gap of the plan; zero when nothing is. -/
def violation (t : Track) : Int :=
  if plan.separationEnabled then
    (plan.separation.filterMap fun (a, gap) => missing? placements t a gap).foldr max 0
  else 0

/-! ### One more placement -/

variable {placements}

theorem since?_concat (t : Track) (fromFallback : Bool) (start finish : Int) (id : String) :
    since? (placements ++ [⟨t, false, fromFallback, start, finish⟩]) id =
      if t.id = id then some 0 else (since? placements id).map (· + 1) := by
  unfold since?
  rw [Placement.songs_append, List.reverse_append]
  change List.findIdx? _ (t :: (Placement.songs placements).reverse) = _
  rw [List.findIdx?_cons]
  simp only [beq_iff_eq]

theorem lt_length_of_since? {id : String} {count : Nat} (h : since? placements id = some count) :
    count < (Placement.songs placements).length := by
  obtain ⟨hlt, _⟩ := List.findIdx?_eq_some_iff_getElem.mp h
  rwa [List.length_reverse] at hlt

theorem covered_concat (t : Track) (fromFallback : Bool) (start finish : Int) (q : Quota) :
    covered (placements ++ [⟨t, false, fromFallback, start, finish⟩]) q =
      if q.covers t then covered placements q + 1 else covered placements q := by
  unfold covered
  rw [Placement.songs_append, List.countP_append]
  change _ + List.countP _ [t] = _
  rw [List.countP_singleton]
  split <;> rfl

theorem lastStart?_concat (t : Track) (fromFallback : Bool) (start finish : Int) (a : Attribute)
    (key : String) :
    lastStart? (placements ++ [⟨t, false, fromFallback, start, finish⟩]) a key =
      if a.key? t = some key then some start else lastStart? placements a key := by
  unfold lastStart?
  rw [Placement.music_append, List.reverse_append]
  change Option.map _ (List.find? _
    ((⟨t, false, fromFallback, start, finish⟩ : Placement) :: _)) = _
  rw [List.find?_cons]
  by_cases hkey : a.key? t = some key
  · simp [hkey]
  · rw [if_neg hkey]
    simp [beq_eq_false_iff_ne.mpr hkey]

/-- Among placements in the order of their starts, the latest music with a key
starts no earlier than any other. -/
theorem le_lastStart? {p : Placement} {a : Attribute} {key : String}
    (hordered : placements.Pairwise fun p q => p.startsAt ≤ q.startsAt)
    (hp : p ∈ Placement.music placements) (hkey : a.key? p.track = some key) :
    ∃ last, lastStart? placements a key = some last ∧ p.startsAt ≤ last := by
  have hmusic : (Placement.music placements).reverse.Pairwise fun p q => q.startsAt ≤ p.startsAt :=
    List.pairwise_reverse.mpr (hordered.sublist List.filter_sublist)
  have hmem := List.mem_reverse.mpr hp
  unfold lastStart?
  cases hfound : (Placement.music placements).reverse.find?
      fun q => a.key? q.track == some key with
  | none =>
      have hnone := List.find?_eq_none.mp hfound p hmem
      simp [hkey] at hnone
  | some latest =>
      -- Reversed, the starts fall, and the first match stands before every other one.
      refine ⟨latest.startsAt, rfl, ?_⟩
      obtain ⟨_, later, earlier, hsplit, hlater⟩ := List.find?_eq_some_iff_append.mp hfound
      rw [hsplit] at hmusic hmem
      rcases List.mem_append.mp hmem with hamong | hrest
      · have hother := hlater p hamong
        simp [hkey] at hother
      · rcases List.mem_cons.mp hrest with rfl | hbefore
        · exact Int.le_refl _
        · exact (List.pairwise_cons.mp (List.pairwise_append.mp hmusic).2.1).1 p hbefore

/-- What is remembered of a key is the start of music with that key. -/
theorem exists_of_lastStart? {a : Attribute} {key : String}
    {start : Int} (h : lastStart? placements a key = some start) :
    ∃ p ∈ Placement.music placements, a.key? p.track = some key ∧ p.startsAt = start := by
  obtain ⟨p, hfound, hstart⟩ := Option.map_eq_some_iff.mp h
  have hmem := List.mem_of_find?_eq_some hfound
  have hkey := List.find?_some hfound
  exact ⟨p, List.mem_reverse.mp hmem, by simpa using hkey, hstart⟩

end History

namespace State

/-! ## What is remembered of keys -/

theorem get?_noteKeys_singleton (b : Attribute) (t : Track) (moment : Int)
    (played : Table (Attribute × String) Int) (a : Attribute) (key : String) :
    (noteKeys [b] t moment played).get? (a, key) =
      if b = a ∧ a.key? t = some key then some moment else played.get? (a, key) := by
  cases hown : b.key? t with
  | none =>
      simp only [noteKeys, List.foldl_cons, List.foldl_nil, hown]
      rw [if_neg]
      rintro ⟨rfl, hkey⟩
      rw [hown] at hkey
      contradiction
  | some own =>
      simp only [noteKeys, List.foldl_cons, List.foldl_nil, hown]
      rw [Table.get?_put]
      congr 1
      rw [Prod.mk.injEq, eq_iff_iff, and_congr_right_iff]
      rintro rfl
      rw [hown, Option.some.injEq]

/-- Noting a track sets each of its keys that is asked for, and nothing else. -/
theorem get?_noteKeys (fields : List Attribute) (t : Track) (moment : Int)
    (played : Table (Attribute × String) Int) (a : Attribute) (key : String) :
    (noteKeys fields t moment played).get? (a, key) =
      if a ∈ fields ∧ a.key? t = some key then some moment else played.get? (a, key) := by
  induction fields generalizing played with
  | nil => simp [noteKeys]
  | cons b fields ih =>
      change (noteKeys fields t moment (noteKeys [b] t moment played)).get? (a, key) = _
      rw [ih, get?_noteKeys_singleton]
      by_cases hkey : a.key? t = some key
      · by_cases hfirst : b = a
        · simp [hfirst, hkey]
        · simp [hfirst, hkey, Ne.symm hfirst]
      · simp [hkey]

theorem music_placeMusic (r : Reckoning) (s : State) (plan : Plan) (t : Track)
    (fromFallback : Bool) :
    Placement.music (s.placeMusic r plan t fromFallback).placements =
      Placement.music s.placements ++
        [⟨t, false, fromFallback, s.total, r.hold (s.total + t.duration)⟩] :=
  Placement.music_append ..

theorem music_placeAd (r : Reckoning) (s : State) (t : Track) (fromFallback : Bool) :
    Placement.music (s.placeAd r t fromFallback).placements =
      Placement.music s.placements :=
  (Placement.music_append ..).trans (List.append_nil _)

theorem songs_placeMusic (r : Reckoning) (s : State) (plan : Plan) (t : Track)
    (fromFallback : Bool) :
    Placement.songs (s.placeMusic r plan t fromFallback).placements =
      Placement.songs s.placements ++ [t] :=
  Placement.songs_append ..

theorem songs_placeAd (r : Reckoning) (s : State) (t : Track) (fromFallback : Bool) :
    Placement.songs (s.placeAd r t fromFallback).placements = Placement.songs s.placements :=
  (Placement.songs_append ..).trans (List.append_nil _)

/-! ## The memory of a state -/

theorem countQuotas_map (t : Track) (quotas : List Quota) (count : Quota → Nat) :
    countQuotas t quotas (quotas.map count) =
      quotas.map fun q => if q.covers t then count q + 1 else count q := by
  induction quotas with
  | nil => rfl
  | cons q quotas ih => simp only [List.map_cons, countQuotas, ih]

/-- What a state remembers is what its placements say, under every reckoning. -/
structure Recalls (plan : Plan) (s : State) : Prop where
  musicCount_eq : s.musicCount = (Placement.songs s.placements).length
  quotaTotal_eq : s.quotaTotal = (Placement.songs s.placements).length
  quotaCounts_eq : s.quotaCounts = plan.quotas.map (History.covered s.placements)
  lastTrack_eq : s.lastTrack = (Placement.songs s.placements).getLast?.map (·.id)
  ordinals_eq : ∀ id, s.ordinals.get? id =
    (History.since? s.placements id).map fun count => s.musicCount - count
  lastPlayed_eq : ∀ a ∈ plan.separation.map (·.1), ∀ key,
    s.lastPlayed.get? (a, key) = History.lastStart? s.placements a key

variable {r : Reckoning} {plan : Plan} {s : State} {t : Track} {fromFallback : Bool}

theorem recalls_start (plan : Plan) : (State.start plan).Recalls plan :=
  ⟨rfl, rfl, rfl, rfl, fun _ => rfl, fun _ _ _ => rfl⟩

/-- Placing music updates everything that is remembered. -/
theorem Recalls.placeMusic (h : s.Recalls plan) :
    (s.placeMusic r plan t fromFallback).Recalls plan := by
  have hsongs := songs_placeMusic r s plan t fromFallback
  have hcount : (s.placeMusic r plan t fromFallback).musicCount =
      (Placement.songs (s.placeMusic r plan t fromFallback).placements).length := by
    rw [hsongs, List.length_append]
    exact congrArg (· + 1) h.musicCount_eq
  constructor
  · exact hcount
  · rw [hsongs, List.length_append]
    exact congrArg (· + 1) h.quotaTotal_eq
  · -- Both sides count the new song for exactly the quotas that cover it.
    change countQuotas t plan.quotas s.quotaCounts = plan.quotas.map (History.covered (_ ++ [_]))
    rw [h.quotaCounts_eq, countQuotas_map]
    apply List.map_congr_left
    intro q _
    rw [History.covered_concat]
  · rw [hsongs, List.getLast?_concat]
    rfl
  · intro id
    change (s.ordinals.put t.id (s.musicCount + 1)).get? id =
      (History.since? (_ ++ [_]) id).map fun count => s.musicCount + 1 - count
    rw [Table.get?_put, History.since?_concat]
    split
    · rfl
    · -- One more song came after every other track, and one more song counts.
      rw [h.ordinals_eq, Option.map_map]
      congr 1
      funext count
      change s.musicCount - count = s.musicCount + 1 - (count + 1)
      omega
  · intro a ha key
    change (noteKeys (plan.separation.map (·.1)) t s.total s.lastPlayed).get? (a, key) =
      History.lastStart? (_ ++ [_]) a key
    rw [get?_noteKeys, History.lastStart?_concat, h.lastPlayed_eq a ha key]
    simp only [ha, true_and]

/-- Placing an interstitial changes nothing that is remembered of the music. -/
theorem Recalls.placeAd (h : s.Recalls plan) : (s.placeAd r t fromFallback).Recalls plan := by
  have hsongs := songs_placeAd r s t fromFallback
  have hmusic := music_placeAd r s t fromFallback
  constructor
  · rw [hsongs]
    exact h.musicCount_eq
  · rw [hsongs]
    exact h.quotaTotal_eq
  · unfold History.covered
    rw [hsongs]
    exact h.quotaCounts_eq
  · rw [hsongs]
    exact h.lastTrack_eq
  · unfold History.since?
    rw [hsongs]
    exact h.ordinals_eq
  · unfold History.lastStart?
    rw [hmusic]
    exact h.lastPlayed_eq

/-- The note about the separation is no part of the memory. -/
theorem Recalls.relax (h : s.Recalls plan) (relaxed : Bool) :
    ({ s with relaxed := relaxed } : State).Recalls plan :=
  ⟨h.musicCount_eq, h.quotaTotal_eq, h.quotaCounts_eq, h.lastTrack_eq, h.ordinals_eq,
    h.lastPlayed_eq⟩

/-! ### Answers from memory -/

/-- An ordinal is never greater than the number of songs. -/
theorem Recalls.ordinal_le (h : s.Recalls plan) {id : String} {ordinal : Nat}
    (hordinal : s.ordinals.get? id = some ordinal) : ordinal ≤ s.musicCount := by
  rw [h.ordinals_eq] at hordinal
  obtain ⟨count, _, rfl⟩ := Option.map_eq_some_iff.mp hordinal
  exact Nat.sub_le _ _

theorem Recalls.isImmediateRepeat_eq (h : s.Recalls plan) (t : Track) :
    s.isImmediateRepeat t = History.isImmediateRepeat s.placements t := by
  unfold isImmediateRepeat History.isImmediateRepeat
  rw [h.lastTrack_eq]

theorem Recalls.isRecent_eq (h : s.Recalls plan) (window : Nat) (t : Track) :
    s.isRecent window t = History.isRecent s.placements window t := by
  unfold isRecent History.isRecent
  rw [h.ordinals_eq]
  cases hsince : History.since? s.placements t.id with
  | none => rfl
  | some count =>
      -- The subtraction of the ordinal is undone, since it never underflows.
      have hlt := History.lt_length_of_since? hsince
      rw [← h.musicCount_eq] at hlt
      have hback : s.musicCount - (s.musicCount - count) = count := by omega
      simp only [Option.map_some, Option.any_some, hback]

theorem any_zip_map {α β : Type} (xs : List α) (f : α → β) (p : α × β → Bool) :
    (xs.zip (xs.map f)).any p = xs.any fun x => p (x, f x) := by
  induction xs with
  | nil => rfl
  | cons x xs ih => simp only [List.map_cons, List.zip_cons_cons, List.any_cons, ih]

theorem Recalls.exceedsQuota_eq (h : s.Recalls plan) (t : Track) :
    s.exceedsQuota plan t = History.exceedsQuota plan s.placements t := by
  unfold exceedsQuota History.exceedsQuota
  rw [h.quotaCounts_eq, h.quotaTotal_eq, any_zip_map]
  congr 1
  cases Placement.songs s.placements <;> rfl

/-! ### The worst shortfall -/

theorem foldr_max_nonneg (times : List Int) : 0 ≤ times.foldr max 0 := by
  induction times with
  | nil => exact Int.le_refl 0
  | cons n rest ih => exact Int.le_trans ih (Int.le_max_right _ _)

theorem foldl_max_eq_max_foldr {n : Int} (hn : 0 ≤ n) (times : List Int) :
    times.foldl max n = max n (times.foldr max 0) := by
  induction times generalizing n with
  | nil => exact (Int.max_eq_left hn).symm
  | cons m rest ih =>
      rw [List.foldl_cons, ih (Int.le_trans hn (Int.le_max_left _ _)), List.foldr_cons]
      omega

theorem worst_eq_foldr {times : List Int} (hpos : ∀ n ∈ times, 0 < n) :
    worst times = times.foldr max 0 := by
  cases times with
  | nil => rfl
  | cons n rest => exact foldl_max_eq_max_foldr (Int.le_of_lt (hpos n List.mem_cons_self)) rest

theorem foldr_max_filter_pos (times : List Int) :
    (times.filter (0 < ·)).foldr max 0 = times.foldr max 0 := by
  induction times with
  | nil => rfl
  | cons n rest ih =>
      have hrest := foldr_max_nonneg rest
      by_cases hpos : 0 < n
      · rw [List.filter_cons_of_pos (by simpa using hpos), List.foldr_cons, List.foldr_cons, ih]
      · rw [List.filter_cons_of_neg (by simpa using hpos), List.foldr_cons, ih]
        omega

/-- The worst of the positive times is the greatest of all and zero. -/
theorem worst_filter_pos (times : List Int) :
    worst (times.filter (0 < ·)) = times.foldr max 0 := by
  rw [worst_eq_foldr, foldr_max_filter_pos]
  intro n hn
  simpa using (List.mem_filter.mp hn).2

theorem Recalls.shortfall?_eq (h : s.Recalls plan)
    (htotal : s.total = History.total s.placements) (t : Track) {a : Attribute} {gap : Int}
    (hgap : (a, gap) ∈ plan.separation) :
    s.shortfall? .exact t a gap = (History.missing? s.placements t a gap).filter (0 < ·) := by
  have hlast : (a.key? t).bind (fun key => s.lastPlayed.get? (a, key)) =
      (a.key? t).bind (History.lastStart? s.placements a) := by
    congr 1
    funext key
    exact h.lastPlayed_eq a (List.mem_map_of_mem hgap) key
  unfold shortfall? History.missing?
  rw [hlast, htotal]
  cases (a.key? t).bind (History.lastStart? s.placements a) with
  | none => rfl
  | some start =>
      have hshort : History.total s.placements - start < gap ↔
          0 < gap - (History.total s.placements - start) := by omega
      simp only [Reckoning.hold_exact, Option.map_some, Option.filter_some, decide_eq_true_eq,
        hshort]

theorem Recalls.violation_eq (h : s.Recalls plan) (htotal : s.total = History.total s.placements)
    (t : Track) : s.violation .exact plan t = History.violation plan s.placements t := by
  unfold violation History.violation
  split
  · rw [← worst_filter_pos, List.filter_filterMap]
    congr 1
    apply List.filterMap_congr
    rintro ⟨a, gap⟩ hgap
    exact h.shortfall?_eq htotal t hgap
  · rfl

end State

/-- A block remembers its placements at every moment of its growth. -/
theorem Filling.Grown.recalls {f : Filling} {pools : Pools} {s : State} (h : f.Grown pools s) :
    s.Recalls f.plan := by
  induction h with
  | start => exact State.recalls_start f.plan
  | step fromFallback grown next ih =>
      cases next with
      | music take => exact (ih.relax _).placeMusic
      | ad known fits => exact ih.placeAd

/-! ## Any calls -/

/-- A call that places a track. -/
inductive PlaceCall where
  | music (t : Track) (fromFallback : Bool)
  | ad (t : Track) (fromFallback : Bool)

/-- The placement that a call asks for, not laid out yet. -/
def PlaceCall.placement : PlaceCall → Placement
  | music t fromFallback => ⟨t, false, fromFallback, 0, 0⟩
  | ad t fromFallback => ⟨t, true, fromFallback, 0, 0⟩

namespace State

/-- Carry out a call. -/
def place (r : Reckoning) (plan : Plan) (s : State) : PlaceCall → State
  | .music t fromFallback => s.placeMusic r plan t fromFallback
  | .ad t fromFallback => s.placeAd r t fromFallback

/-- The state after some calls, from the first on. -/
def after (r : Reckoning) (plan : Plan) (calls : List PlaceCall) : State :=
  calls.foldl (place r plan) (State.start plan)

variable {r : Reckoning} {plan : Plan}

theorem after_concat (calls : List PlaceCall) (call : PlaceCall) :
    after r plan (calls ++ [call]) = place r plan (after r plan calls) call := by
  unfold after
  rw [List.foldl_append]
  rfl

/-- A call appends its placement at the running total. -/
theorem place_appends (r : Reckoning) (plan : Plan) (s : State) (call : PlaceCall) :
    (s.place r plan call).placements = s.placements ++
        [{ call.placement with
            startsAt := s.total
            endsAt := r.hold (s.total + call.placement.track.duration) }] ∧
      (s.place r plan call).total = r.hold (s.total + call.placement.track.duration) := by
  cases call <;> exact ⟨rfl, rfl⟩

/-- The placements after some calls are those of the calls, laid out in order. -/
theorem after_laidOut (r : Reckoning) (plan : Plan) (calls : List PlaceCall) :
    (after r plan calls).placements = Placement.layOut r (calls.map (·.placement)) ∧
      (after r plan calls).total = Placement.total r (calls.map (·.placement)) := by
  induction calls using List.reverseRecOn with
  | nil => exact ⟨rfl, rfl⟩
  | append_singleton calls call ih =>
      obtain ⟨hplacements, htotal⟩ := ih
      obtain ⟨happended, hlater⟩ := place_appends r plan (after r plan calls) call
      rw [after_concat, List.map_append, List.map_singleton, Placement.layOut_concat,
        Placement.total_concat, happended, hlater, hplacements, htotal]
      exact ⟨rfl, rfl⟩

theorem recalls_after (r : Reckoning) (plan : Plan) (calls : List PlaceCall) :
    (after r plan calls).Recalls plan := by
  induction calls using List.reverseRecOn with
  | nil => exact recalls_start plan
  | append_singleton calls call ih =>
      rw [after_concat]
      cases call with
      | music t fromFallback => exact ih.placeMusic
      | ad t fromFallback => exact ih.placeAd

/-- With times as integers the running total is the sum of the durations. -/
theorem total_after (plan : Plan) (calls : List PlaceCall) :
    (after .exact plan calls).total = History.total (after .exact plan calls).placements := by
  obtain ⟨hplacements, htotal⟩ := after_laidOut .exact plan calls
  unfold History.total
  rw [hplacements, htotal]
  unfold Placement.total Placement.layOut
  rw [Placement.totalFrom_exact_eq_add_sum, Int.zero_add,
    Placement.map_layOutFrom (·.track.duration) (fun _ _ _ => rfl)]

/-- A state answers every question about a candidate as its placements do. -/
structure Summarizes (plan : Plan) (s : State) : Prop where
  total : s.total = History.total s.placements
  musicCount : s.musicCount = (Placement.music s.placements).length
  quotaTotal : s.quotaTotal = (Placement.music s.placements).length
  quotaCounts : s.quotaCounts = plan.quotas.map (History.covered s.placements)
  fits : ∀ t, s.fits .exact plan t = History.fits plan s.placements t
  adFits : ∀ t, s.adFits .exact plan t = History.adFits plan s.placements t
  isImmediateRepeat : ∀ t, s.isImmediateRepeat t = History.isImmediateRepeat s.placements t
  /-- The distance to the latest placement of a track is a true difference. -/
  ordinal_le : ∀ id ordinal, s.ordinals.get? id = some ordinal → ordinal ≤ s.musicCount
  isRecent : ∀ window t, s.isRecent window t = History.isRecent s.placements window t
  exceedsQuota : ∀ t, s.exceedsQuota plan t = History.exceedsQuota plan s.placements t
  violation : ∀ t, s.violation .exact plan t = History.violation plan s.placements t

theorem Recalls.summarizes {s : State} (h : s.Recalls plan)
    (htotal : s.total = History.total s.placements) : s.Summarizes plan := by
  have hlength : (Placement.songs s.placements).length = (Placement.music s.placements).length :=
    List.length_map _
  have hadFits : ∀ t, s.adFits .exact plan t = History.adFits plan s.placements t := by
    intro t
    unfold adFits History.adFits
    rw [htotal, Reckoning.hold_exact]
  exact {
    total := htotal
    musicCount := h.musicCount_eq.trans hlength
    quotaTotal := h.quotaTotal_eq.trans hlength
    quotaCounts := h.quotaCounts_eq
    fits := fun t => congrArg (s.placements.isEmpty || ·) (hadFits t)
    adFits := hadFits
    isImmediateRepeat := h.isImmediateRepeat_eq
    ordinal_le := fun _ _ hordinal => h.ordinal_le hordinal
    isRecent := h.isRecent_eq
    exceedsQuota := h.exceedsQuota_eq
    violation := h.violation_eq htotal }

/-- After any calls the placements are those that were asked for, one after the
other, and the state is a summary of them. -/
theorem after_summarizes (plan : Plan) (calls : List PlaceCall) :
    (after .exact plan calls).placements =
        Placement.layOut .exact (calls.map (·.placement)) ∧
      (after .exact plan calls).Summarizes plan :=
  ⟨(after_laidOut .exact plan calls).1,
    (recalls_after .exact plan calls).summarizes (total_after plan calls)⟩

end State

end Rundown
