import Rundown.Proofs.Finish
import Rundown.Proofs.History

/-!
# Interstitials in turn

A block can be read as a list of cues: a song is placed in any case, and an
interstitial is offered and placed where it fits.  This file extracts the cues of
a block and says which they are.  After every so many songs come the offers of
one break, and the offers go round the list of interstitials.  They are numbered
through all breaks, passes and phases, and an interstitial that does not fit uses
up its number.  Following the cues from an empty block gives the block back, so
no interstitial occurs without an offer and none that fits is left out.

The cues are those of the block before the trim, which may take out a song
between two breaks.
-/

namespace Rundown

/-- A song to place, or an interstitial to offer. -/
inductive Cue where
  | song (t : Track) (fromFallback : Bool)
  | offer (t : Track) (fromFallback : Bool)

namespace Cue

/-- A song is called for, not an interstitial. -/
def isSong : Cue → Bool
  | song .. => true
  | offer .. => false

/-- How many songs are called for. -/
def songs (cues : List Cue) : Nat :=
  cues.countP isSong

/-- How many interstitials are offered. -/
def offers (cues : List Cue) : Nat :=
  cues.countP (!isSong ·)

/-- Follow a cue at the end of a block: a song is placed, and an interstitial if the
total with it is within the upper bound. -/
def follow (r : Reckoning) (plan : Plan) (placements : List Placement) : Cue → List Placement
  | song t fromFallback =>
      let start := Placement.total r placements
      placements ++ [⟨t, false, fromFallback, start, r.hold (start + t.duration)⟩]
  | offer t fromFallback =>
      let start := Placement.total r placements
      let finish := r.hold (start + t.duration)
      if finish ≤ plan.upperBound then placements ++ [⟨t, true, fromFallback, start, finish⟩]
      else placements

/-- Follow all cues from an empty block on. -/
def followAll (r : Reckoning) (plan : Plan) (cues : List Cue) : List Placement :=
  cues.foldl (follow r plan) []

/-- The offers go round the interstitials and come in breaks.  The offer of number
`j`, from zero, is of the interstitial at `j` modulo their count, and it comes after
the song of ordinal `every * (j / perBreak + 1)` and before the next song. -/
def InTurn (ads : List Track) (breaks : Breaks) (cues : List Cue) : Prop :=
  ∀ earlier t fromFallback later, cues = earlier ++ offer t fromFallback :: later →
    ads[offers earlier % ads.length]? = some t ∧
      songs earlier = breaks.every * (offers earlier / breaks.perBreak + 1)

variable {r : Reckoning} {plan : Plan} {ads : List Track} {breaks : Breaks} {cues : List Cue}

@[simp]
theorem songs_concat_song (t : Track) (fromFallback : Bool) :
    songs (cues ++ [song t fromFallback]) = songs cues + 1 :=
  List.countP_append

@[simp]
theorem songs_concat_offer (t : Track) (fromFallback : Bool) :
    songs (cues ++ [offer t fromFallback]) = songs cues :=
  List.countP_append

@[simp]
theorem offers_concat_song (t : Track) (fromFallback : Bool) :
    offers (cues ++ [song t fromFallback]) = offers cues :=
  List.countP_append

@[simp]
theorem offers_concat_offer (t : Track) (fromFallback : Bool) :
    offers (cues ++ [offer t fromFallback]) = offers cues + 1 :=
  List.countP_append

theorem followAll_concat (cue : Cue) :
    followAll r plan (cues ++ [cue]) = follow r plan (followAll r plan cues) cue := by
  unfold followAll
  rw [List.foldl_append]
  rfl

/-- The songs that are called for are the music of the block. -/
theorem length_music_followAll (cues : List Cue) :
    (Placement.music (followAll r plan cues)).length = songs cues := by
  induction cues using List.reverseRecOn with
  | nil => rfl
  | append_singleton cues cue ih =>
      rw [followAll_concat]
      cases cue with
      | song t fromFallback =>
          rw [songs_concat_song, ← ih]
          simp [follow, Placement.music, Placement.isMusic]
      | offer t fromFallback =>
          rw [songs_concat_offer, ← ih]
          simp only [follow]
          split
          · simp [Placement.music, Placement.isMusic]
          · rfl

theorem inTurn_nil : InTurn ads breaks [] := by
  intro earlier t fromFallback later hsplit
  simp at hsplit

/-- One more cue keeps the turns if it is a song, or an offer whose turn it is. -/
theorem InTurn.concat {cue : Cue} (h : InTurn ads breaks cues)
    (hcue : ∀ t fromFallback, cue = offer t fromFallback →
      ads[offers cues % ads.length]? = some t ∧
        songs cues = breaks.every * (offers cues / breaks.perBreak + 1)) :
    InTurn ads breaks (cues ++ [cue]) := by
  intro earlier t fromFallback later hsplit
  rcases split_concat hsplit with ⟨rfl, hnew⟩ | ⟨front, hold⟩
  · exact hcue t fromFallback hnew
  · exact h earlier t fromFallback front hold

end Cue

namespace Filling

variable (f : Filling)

/-- The cues of a run: following them gives its block, the turn and the count of the
songs are read off them, and the offers among them are in turn. -/
structure Cued (cues : List Cue) (run : Run) : Prop where
  placements : Cue.followAll f.reckoning f.plan cues = run.state.placements
  total : run.state.total = Placement.total f.reckoning run.state.placements
  musicCount : run.state.musicCount = Cue.songs cues
  turn : run.turn = Cue.offers cues % f.ads.length
  inTurn : Cue.InTurn f.ads f.plan.breaks cues

variable {f} {cues : List Cue} {run : Run} (fromFallback : Bool)

theorem cued_start : f.Cued [] f.start :=
  ⟨rfl, rfl, rfl, (Nat.zero_mod _).symm, Cue.inTurn_nil⟩

/-- Placing a song follows its cue. -/
theorem Cued.song (h : f.Cued cues run) (t : Track) (relaxed : Bool) (used : Nat) :
    f.Cued (cues ++ [.song t fromFallback])
      ⟨{ run.state with relaxed := relaxed }.placeMusic f.reckoning f.plan t fromFallback,
        run.turn, used⟩ := by
  constructor
  · rw [Cue.followAll_concat, h.placements, Cue.follow, ← h.total]
    rfl
  · change f.reckoning.hold (run.state.total + t.duration) =
      Placement.total f.reckoning (run.state.placements ++ [_])
    rw [Placement.total_concat, ← h.total]
  · rw [Cue.songs_concat_song, ← h.musicCount]
    rfl
  · rw [Cue.offers_concat_song]
    exact h.turn
  · exact h.inTurn.concat fun _ _ hcue => nomatch hcue

/-- Offering the interstitial whose turn it is follows its cue, whether it fits or not. -/
theorem Cued.offer (h : f.Cued cues run) {t : Track}
    (hturn : f.ads[Cue.offers cues % f.ads.length]? = some t)
    (hbreak : Cue.songs cues =
      f.plan.breaks.every * (Cue.offers cues / f.plan.breaks.perBreak + 1)) (used : Nat) :
    f.Cued (cues ++ [.offer t fromFallback])
      ⟨if run.state.adFits f.reckoning f.plan t then
          run.state.placeAd f.reckoning t fromFallback
        else run.state, (run.turn + 1) % f.ads.length, used⟩ := by
  have hnext : (run.turn + 1) % f.ads.length =
      Cue.offers (cues ++ [.offer t fromFallback]) % f.ads.length := by
    rw [Cue.offers_concat_offer, h.turn, Nat.mod_add_mod]
  have hinTurn : Cue.InTurn f.ads f.plan.breaks (cues ++ [.offer t fromFallback]) := by
    apply h.inTurn.concat
    intro other _ hcue
    obtain ⟨rfl, -⟩ := Cue.offer.inj hcue
    exact ⟨hturn, hbreak⟩
  by_cases hfits : f.reckoning.hold (run.state.total + t.duration) ≤ f.plan.upperBound
  · have hplaced : run.state.adFits f.reckoning f.plan t = true := decide_eq_true hfits
    simp only [hplaced, if_true]
    refine ⟨?_, ?_, ?_, hnext, hinTurn⟩
    · rw [Cue.followAll_concat, h.placements, Cue.follow, ← h.total, if_pos hfits]
      rfl
    · change f.reckoning.hold (run.state.total + t.duration) =
        Placement.total f.reckoning (run.state.placements ++ [_])
      rw [Placement.total_concat, ← h.total]
    · rw [Cue.songs_concat_offer, ← h.musicCount]
      rfl
  · have hskipped : run.state.adFits f.reckoning f.plan t = false := decide_eq_false hfits
    simp only [hskipped, Bool.false_eq_true, if_false]
    refine ⟨?_, h.total, ?_, hnext, hinTurn⟩
    · rw [Cue.followAll_concat, h.placements, Cue.follow, ← h.total, if_neg hfits]
    · rw [Cue.songs_concat_offer, h.musicCount]

/-- A break offers as many interstitials as it is asked for, one after the other. -/
theorem Cued.break (h : f.Cued cues run) (hads : f.ads ≠ []) {number : Nat}
    (hsongs : Cue.songs cues = f.plan.breaks.every * (number + 1)) (count : Nat)
    (hfirst : f.plan.breaks.perBreak * number ≤ Cue.offers cues)
    (hlast : Cue.offers cues + count ≤ f.plan.breaks.perBreak * (number + 1)) :
    ∃ cues', f.Cued cues' (f.offer fromFallback count run) ∧
      Cue.songs cues' = Cue.songs cues ∧ Cue.offers cues' = Cue.offers cues + count := by
  induction count generalizing cues run with
  | zero => exact ⟨cues, h, rfl, rfl⟩
  | succ count ih =>
      have hlength : 0 < f.ads.length := List.length_pos_iff.mpr hads
      have hbound := Nat.mod_lt (Cue.offers cues) hlength
      have hturn : f.ads[run.turn % f.ads.length]? =
          some f.ads[Cue.offers cues % f.ads.length] := by
        rw [h.turn, Nat.mod_mod, List.getElem?_eq_getElem hbound]
      -- All offers of the break have its number, since they are fewer than those of two.
      have hnumber : Cue.offers cues / f.plan.breaks.perBreak = number := by
        apply Nat.div_eq_of_lt_le
        · rw [Nat.mul_comm]
          exact hfirst
        · rw [Nat.mul_comm]
          omega
      unfold Filling.offer
      rw [hturn]
      have hnext := h.offer fromFallback (List.getElem?_eq_getElem hbound)
        (by rw [hsongs, hnumber]) run.coinsUsed
      obtain ⟨cues', hcues', hsame, hmore⟩ := ih hnext (by rw [Cue.songs_concat_offer, hsongs])
        (by rw [Cue.offers_concat_offer]; omega) (by rw [Cue.offers_concat_offer]; omega)
      refine ⟨cues', hcues', ?_, ?_⟩
      · rw [hsame, Cue.songs_concat_offer]
      · rw [hmore, Cue.offers_concat_offer]
        omega

/-- Between two turns all breaks that were due have been offered in full. -/
def Served (f : Filling) (run : Run) : Prop :=
  ∃ cues, f.Cued cues run ∧
    Cue.offers cues = f.plan.breaks.perBreak * (Cue.songs cues / f.plan.breaks.every)

/-- After one more song the break that follows it is offered in full. -/
theorem Cued.takeBreak (h : f.Cued cues run) (henabled : f.plan.breaks.enabled = true)
    (hads : f.ads ≠ []) {count : Nat} (hsongs : Cue.songs cues = count + 1)
    (hoffers : Cue.offers cues = f.plan.breaks.perBreak * (count / f.plan.breaks.every)) :
    f.Served (f.takeBreak fromFallback run) := by
  have hdue : f.breakDue run.state = ((count + 1) % f.plan.breaks.every == 0) := by
    have hsome : f.ads.isEmpty = false := by simpa using hads
    unfold breakDue
    rw [henabled, hsome, h.musicCount, hsongs]
    rfl
  unfold Filling.takeBreak
  rw [hdue]
  split
  · rename_i hfull
    -- The new song is the last one of a round.
    have hdvd : f.plan.breaks.every ∣ count + 1 := Nat.dvd_of_mod_eq_zero (beq_iff_eq.mp hfull)
    have hround := Nat.succ_div_of_dvd hdvd
    obtain ⟨cues', hcues', hsame, hmore⟩ := h.break fromFallback hads
      (by rw [hsongs, ← hround, Nat.mul_div_cancel' hdvd]) f.plan.breaks.perBreak
      hoffers.ge (by rw [hoffers, Nat.mul_succ])
    refine ⟨cues', hcues', ?_⟩
    rw [hmore, hsame, hsongs, hoffers, hround, Nat.mul_succ]
  · rename_i hopen
    have hround := Nat.succ_div_of_not_dvd fun hdvd =>
      hopen (beq_iff_eq.mpr (Nat.mod_eq_zero_of_dvd hdvd))
    exact ⟨cues, h, by rw [hsongs, hoffers, hround]⟩

/-- A turn places a song, and offers a break if one is due after it. -/
theorem Served.take (h : f.Served run) (henabled : f.plan.breaks.enabled = true)
    (hads : f.ads ≠ []) (chosen : Scored) (used : Nat) :
    f.Served (f.take fromFallback run chosen used) := by
  obtain ⟨cues, hcues, hoffers⟩ := h
  have hsong := hcues.song fromFallback chosen.candidate.track
    (run.state.relaxed || chosen.violation != 0) used
  exact hsong.takeBreak fromFallback henabled hads (Cue.songs_concat_song ..)
    ((Cue.offers_concat_song ..).trans hoffers)

end Filling

namespace Sequence

/-- The block before the trim follows cues in which the interstitials are offered in
turn, a break of them after every so many songs. -/
theorem untrimmed_inTurn (r : Reckoning) (plan : Plan) (pools : Pools) (coins : Coins)
    (henabled : plan.breaks.enabled = true) (hads : pools.ads ≠ []) :
    ∃ cues, Cue.followAll r plan cues = untrimmed r plan pools coins ∧
      Cue.InTurn pools.ads plan.breaks cues ∧
      Cue.offers cues = plan.breaks.perBreak *
        ((Placement.music (untrimmed r plan pools coins)).length / plan.breaks.every) := by
  let f : Filling := ⟨r, plan, pools.ads, coins⟩
  have hserved : f.Served (filled f pools) := by
    apply Filling.filled_invariant
    · refine ⟨[], Filling.cued_start, ?_⟩
      change 0 = f.plan.breaks.perBreak * (0 / f.plan.breaks.every)
      rw [Nat.zero_div, Nat.mul_zero]
    · intro fromFallback run c used h _
      exact h.take fromFallback henabled hads _ used
  obtain ⟨cues, hcues, hoffers⟩ := hserved
  have hblock : Cue.followAll r plan cues = untrimmed r plan pools coins := hcues.placements
  refine ⟨cues, hblock, hcues.inTurn, ?_⟩
  rw [← hblock, Cue.length_music_followAll]
  exact hoffers

end Sequence

namespace Sample

/-- Ten minutes with a tolerance of one, and two interstitials after every second song. -/
def pairedRules : Document :=
  ⟨[("targetMinutes", .int 10), ("durationAccuracy", .int 60),
    ("interstitials", .obj [("enabled", .bool true), ("genre", .str "Ads"), ("every", .int 2),
      ("perBreak", .int 2)])]⟩

/-- The plan of a block with breaks of two. -/
def paired : Plan := Plan.ofDocuments pairedRules .empty 2026

/-- Four songs, and three interstitials of which the second is too long for the block. -/
def pairedPools : Pools :=
  ⟨[.song "a" "W" 150000, .song "b" "X" 140000, .song "c" "Y" 110000, .song "d" "Z" 105000],
    [.song "x" "V" 20000, .song "y" "V" 400000, .song "z" "V" 10000], []⟩

end Sample

namespace Sequence

/-- The second offer of the first break does not fit, and the second break goes on with
the third interstitial and then the first one again. -/
theorem untrimmed_inTurn_sample :
    let placements := untrimmed .exact Sample.paired Sample.pairedPools Sample.coins
    Sample.paired.breaks.enabled = true ∧ Sample.pairedPools.ads ≠ [] ∧
      placements.map (·.track.id) = ["a", "b", "x", "c", "d", "z", "x"] ∧
      ∃ cues, Cue.followAll .exact Sample.paired cues = placements ∧
        Cue.InTurn Sample.pairedPools.ads Sample.paired.breaks cues ∧
        Cue.offers cues = Sample.paired.breaks.perBreak *
          ((Placement.music placements).length / Sample.paired.breaks.every) := by
  have henabled : Sample.paired.breaks.enabled = true := by decide +kernel
  have hads : Sample.pairedPools.ads ≠ [] := List.cons_ne_nil _ _
  have hids : (untrimmed .exact Sample.paired Sample.pairedPools Sample.coins).map (·.track.id) =
      ["a", "b", "x", "c", "d", "z", "x"] := by
    decide +kernel
  exact ⟨henabled, hads, hids,
    untrimmed_inTurn .exact Sample.paired Sample.pairedPools Sample.coins henabled hads⟩

end Sequence

end Rundown
