import Rundown.Proofs.Repetition

/-!
# The distance between two plays of a song

When a pool may be repeated, a track that is among the latest songs is not taken
again: the window is half the pool, at most three.  The songs are numbered
through all passes, and the interstitials between them do not count.  So between
two songs of one track from the own pool lie as many other songs as the window
is wide, and the trim brings them at most one song nearer.

Songs of the fallbacks are left out.  They have a window of their own, which
depends on their pool.
-/

namespace Rundown

namespace Placement

/-- The id of each song, and whether it came from a fallback. -/
def origins (placements : List Placement) : List (String × Bool) :=
  (music placements).map fun p => (p.track.id, p.fromFallback)

theorem origins_append (xs ys : List Placement) :
    origins (xs ++ ys) = origins xs ++ origins ys := by
  unfold origins
  rw [music_append, List.map_append]

/-- Laying placements out anew changes no song and no origin. -/
theorem origins_layOut (r : Reckoning) (placements : List Placement) :
    origins (layOut r placements) = origins placements :=
  map_music_layOutFrom _ (fun _ _ _ => rfl) r 0 placements

theorem map_id_songs (placements : List Placement) :
    (songs placements).map (·.id) = (origins placements).map (·.1) := by
  unfold songs origins
  rw [List.map_map, List.map_map]
  rfl

/-- Between any two songs of one track, neither of them from a fallback, lie at
least `width` other songs. -/
def Spaced (width : Nat) (origins : List (String × Bool)) : Prop :=
  ∀ i j id, i < j → origins[i]? = some (id, false) → origins[j]? = some (id, false) →
    i + width < j

namespace Spaced

variable {width : Nat} {origins : List (String × Bool)}

theorem nil : Spaced width [] := by
  intro i j id _ hi
  simp at hi

theorem mono {narrower : Nat} (h : Spaced width origins) (hle : narrower ≤ width) :
    Spaced narrower origins := by
  intro i j id hlt hi hj
  have hdistance := h i j id hlt hi hj
  omega

/-- One more song keeps the distances if it is far enough from the songs before it. -/
theorem concat (h : Spaced width origins) {id : String} {fromFallback : Bool}
    (hfar : fromFallback = false → ∀ i, origins[i]? = some (id, false) →
      i + width < origins.length) :
    Spaced width (origins ++ [(id, fromFallback)]) := by
  intro i j other hlt hi hj
  have hlast : j < origins.length + 1 := by
    simpa using (List.getElem?_eq_some_iff.mp hj).1
  rw [List.getElem?_append_left (by omega)] at hi
  by_cases hold : j < origins.length
  · rw [List.getElem?_append_left hold] at hj
    exact h i j other hlt hi hj
  · -- The later of the two is the new song.
    obtain rfl : j = origins.length := by omega
    rw [List.getElem?_concat_length] at hj
    obtain ⟨rfl, rfl⟩ := Prod.mk.inj (Option.some.inj hj)
    exact hfar rfl i hi

/-- Without one song any two others are at most one song nearer. -/
theorem remove {earlier later : List (String × Bool)} {removed : String × Bool}
    (h : Spaced width (earlier ++ removed :: later)) : Spaced (width - 1) (earlier ++ later) := by
  -- What follows the removed song stood one place further on.
  let place : Nat → Nat := fun k => if k < earlier.length then k else k + 1
  have hplace : ∀ k, (earlier ++ later)[k]? = (earlier ++ removed :: later)[place k]? := by
    intro k
    by_cases hk : k < earlier.length
    · simp only [place, if_pos hk, List.getElem?_append_left hk]
    · have hrest : k + 1 - earlier.length = (k - earlier.length) + 1 := by omega
      simp only [place, if_neg hk]
      rw [List.getElem?_append_right (by omega), List.getElem?_append_right (by omega), hrest,
        List.getElem?_cons_succ]
  intro i j id hlt hi hj
  rw [hplace] at hi hj
  have hbefore : place i < place j := by
    simp only [place]
    split <;> split <;> omega
  have hdistance := h (place i) (place j) id hbefore hi hj
  simp only [place] at hdistance
  split at hdistance <;> split at hdistance <;> omega

end Spaced

end Placement

/-- Fewer songs came after the latest one of an id than after any other one. -/
theorem History.exists_since? {placements : List Placement} {i : Nat} {id : String}
    (h : ((Placement.songs placements).map (·.id))[i]? = some id) :
    ∃ count, since? placements id = some count ∧
      i + count < (Placement.songs placements).length := by
  obtain ⟨hi, hid⟩ := List.getElem?_eq_some_iff.mp h
  rw [List.length_map] at hi
  rw [List.getElem_map] at hid
  -- Read from the end, the song stands behind as many songs as came after it.
  have hback : (Placement.songs placements).length - 1 - i <
      (Placement.songs placements).reverse.length := by
    rw [List.length_reverse]
    omega
  have hfound : ((Placement.songs placements).reverse[
      (Placement.songs placements).length - 1 - i]).id = id := by
    rw [List.getElem_reverse]
    have hforth : (Placement.songs placements).length - 1 -
        ((Placement.songs placements).length - 1 - i) = i := by omega
    simp only [hforth, hid]
  unfold since?
  cases hlatest : (Placement.songs placements).reverse.findIdx? (·.id == id) with
  | none =>
      have hother := List.findIdx?_eq_none_iff.mp hlatest _ (List.getElem_mem hback)
      exact absurd hfound (beq_eq_false_iff_ne.mp hother)
  | some count =>
      obtain ⟨_, _, hnearer⟩ := List.findIdx?_eq_some_iff_getElem.mp hlatest
      refine ⟨count, rfl, ?_⟩
      by_contra hfar
      exact hnearer ((Placement.songs placements).length - 1 - i) (by omega)
        (beq_iff_eq.mpr hfound)

namespace Filling

variable {f : Filling} {pools : Pools} {s : State}

/-- The songs of the own pool keep their distance at every moment of the growth
of a block. -/
theorem Grown.spaced (h : f.Grown pools s) :
    Placement.Spaced (f.windowOf pools.music) (Placement.origins s.placements) := by
  induction h with
  | start => exact Placement.Spaced.nil
  | @step fromFallback s _ grown next ih =>
      cases next with
      | @music t take =>
          change Placement.Spaced _ (Placement.origins (s.placements ++ [_]))
          rw [Placement.origins_append]
          apply ih.concat
          rintro rfl i hi
          have hsong : ((Placement.songs s.placements).map (·.id))[i]? = some t.id := by
            rw [Placement.map_id_songs, List.getElem?_map, hi]
            rfl
          obtain ⟨count, hsince, hcount⟩ := History.exists_since? hsong
          have hwindow : f.windowOf pools.music ≤ count := take.le_since grown.recalls hsince
          have hlength : (Placement.songs s.placements).length =
              (Placement.origins s.placements).length := by
            unfold Placement.songs Placement.origins
            rw [List.length_map, List.length_map]
          omega
      | ad known fits =>
          change Placement.Spaced _ (Placement.origins (s.placements ++ [_]))
          rw [Placement.origins_append]
          simpa [Placement.origins, Placement.music, Placement.isMusic] using ih

end Filling

namespace Sample

/-- Four songs that take turns, and an interstitial for the breaks between them. -/
def quartet (ads : List Track) : Pools :=
  ⟨[.song "a" "W" 80000, .song "b" "X" 85000, .song "c" "Y" 90000, .song "d" "Z" 95000], ads, []⟩

end Sample

namespace Sequence

/-- Finishing takes at most one song from between two others, and none without a
report. -/
theorem finish_spaced {r : Reckoning} {plan : Plan} {s : State} {width : Nat}
    (h : Placement.Spaced width (Placement.origins s.placements)) :
    ((∀ id, .trimmed id ∉ (finish r plan s).warnings) →
        Placement.Spaced width (Placement.origins (finish r plan s).placements)) ∧
      Placement.Spaced (width - 1) (Placement.origins (finish r plan s).placements) := by
  rcases finish_cases r plan s with hkept | ⟨earlier, removed, later, hcuts, hfinish⟩
  · rw [hkept, Placement.origins_layOut]
    exact ⟨fun _ => h, h.mono (Nat.sub_le _ _)⟩
  · refine ⟨fun hnone => absurd (trimmed_mem_of_cuts hcuts) (hnone _), ?_⟩
    rw [hfinish, Placement.origins_layOut, Placement.origins_append]
    rw [hcuts.split, Placement.origins_append] at h
    cases hkind : removed.isAd with
    | true =>
        have hsame : Placement.origins (removed :: later) = Placement.origins later := by
          simp [Placement.origins, Placement.music, Placement.isMusic, hkind]
        rw [hsame] at h
        exact h.mono (Nat.sub_le _ _)
    | false =>
        have hfirst : Placement.origins (removed :: later) =
            (removed.track.id, removed.fromFallback) :: Placement.origins later := by
          simp [Placement.origins, Placement.music, Placement.isMusic, hkind]
        rw [hfirst] at h
        exact h.remove

/-- With repeats allowed, two songs of one track from the own pool are separated
by at least as many other songs as the window is wide, or by one less when
a placement was trimmed. -/
theorem build_spaced (r : Reckoning) (plan : Plan) (pools : Pools) (coins : Coins)
    (hon : plan.allowRepeats = true) :
    let result := (build r plan pools coins).1
    let width := min 3 (pools.music.length / 2)
    ((∀ id, .trimmed id ∉ result.warnings) →
        Placement.Spaced width (Placement.origins result.placements)) ∧
      ((∃ id, .trimmed id ∈ result.warnings) →
        Placement.Spaced (width - 1) (Placement.origins result.placements)) := by
  intro result width
  have hwidth : (⟨r, plan, pools.ads, coins⟩ : Filling).windowOf pools.music = width := by
    unfold Filling.windowOf
    rw [if_pos hon]
    rfl
  have hgrown := (Filling.grown_filled ⟨r, plan, pools.ads, coins⟩ pools).spaced
  rw [hwidth] at hgrown
  obtain ⟨hkept, hcut⟩ := finish_spaced hgrown
  exact ⟨hkept, fun _ => hcut⟩

/-- Four songs have a window of two.  Without interstitials nothing is trimmed, and
with them the trim takes out a song. -/
theorem build_spaced_sample :
    let songsOnly := (build .exact Sample.rotation (Sample.quartet []) Sample.coins).1
    let withBreaks :=
      (build .exact Sample.rotation (Sample.quartet [.song "ad" "V" 40000]) Sample.coins).1
    Sample.rotation.allowRepeats = true ∧
      (∀ id, .trimmed id ∉ songsOnly.warnings) ∧
      Placement.Spaced 2 (Placement.origins songsOnly.placements) ∧
      .trimmed "a" ∈ withBreaks.warnings ∧
      Placement.Spaced 1 (Placement.origins withBreaks.placements) := by
  intro songsOnly withBreaks
  have hon : Sample.rotation.allowRepeats = true := by decide +kernel
  have hnone : songsOnly.warnings = [] := by decide +kernel
  have htrimmed : .trimmed "a" ∈ withBreaks.warnings := by decide +kernel
  have hkept : ∀ id, .trimmed id ∉ songsOnly.warnings := by
    rw [hnone]
    exact fun _ => List.not_mem_nil
  exact ⟨hon, hkept, (build_spaced .exact _ _ _ hon).1 hkept, htrimmed,
    (build_spaced .exact _ _ _ hon).2 ⟨"a", htrimmed⟩⟩

end Sequence

end Rundown
