import Rundown.Proofs.History

/-!
# What a pass takes from its pool

A pass places candidates one after the other and lays each aside that it has
placed.  The songs it adds to a block are therefore some of its candidates, in
some order and each once, and what it returns are the others.  A phase of a
single pass adds tracks of its pool in this sense.  Nothing is said here about
which candidates are taken; nor do further passes keep to it, since each of them
starts with the whole pool again.
-/

namespace Rundown

namespace Filling

variable (f : Filling) (fromFallback : Bool)

/-! ## One turn of a pass -/

section Equations

variable {window steps used : Nat} {offered : List Candidate} {run : Run}

theorem pass_of_full (hfull : ¬ run.state.total < f.plan.lowerBound) :
    f.pass fromFallback window (steps + 1) offered run = (run, offered) := by
  unfold pass
  rw [if_neg hfull]

theorem pass_of_none (hshort : run.state.total < f.plan.lowerBound)
    (hnone : run.state.choose f.reckoning f.plan window f.coins run.coinsUsed offered =
      (none, used)) :
    f.pass fromFallback window (steps + 1) offered run =
      ({ run with coinsUsed := used }, offered) := by
  unfold pass
  rw [if_pos hshort, hnone]

theorem pass_of_some {chosen : Scored} (hshort : run.state.total < f.plan.lowerBound)
    (hsome : run.state.choose f.reckoning f.plan window f.coins run.coinsUsed offered =
      (some chosen, used)) :
    f.pass fromFallback window (steps + 1) offered run =
      f.pass fromFallback window steps (offered.filter (·.index != chosen.candidate.index))
        (f.take fromFallback run chosen used) := by
  rw [pass, if_pos hshort, hsome]

end Equations

/-! ## What is taken -/

/-- A turn adds the chosen track to the songs; the break after it adds none. -/
theorem songs_take (run : Run) (chosen : Scored) (used : Nat) :
    Placement.songs (f.take fromFallback run chosen used).state.placements =
      Placement.songs run.state.placements ++ [chosen.candidate.track] := by
  apply takeBreak_invariant fromFallback (P := fun s => Placement.songs s.placements = _)
  · intro s t hs _ _
    rw [State.songs_placeAd]
    exact hs
  · exact State.songs_placeMusic ..

/-- Laying aside the candidate of an index takes exactly that one away. -/
theorem perm_cons_filter_index {c : Candidate} {candidates : List Candidate}
    (hc : c ∈ candidates) (hindex : (candidates.map (·.index)).Nodup) :
    (c :: candidates.filter (·.index != c.index)).Perm candidates := by
  induction candidates with
  | nil => contradiction
  | cons d rest ih =>
      obtain ⟨hfresh, hrest⟩ := List.nodup_cons.mp hindex
      rcases List.mem_cons.mp hc with rfl | hlater
      · -- No other candidate has the index, so all the others stay.
        have hothers : ∀ other ∈ rest, (other.index != c.index) = true := by
          intro other hother
          rw [bne_iff_ne]
          intro hsame
          exact hfresh (List.mem_map.mpr ⟨other, hother, hsame⟩)
        rw [List.filter_cons_of_neg (by simp), List.filter_eq_self.mpr hothers]
      · have hdiffers : (d.index != c.index) = true := by
          rw [bne_iff_ne]
          intro hsame
          exact hfresh (List.mem_map.mpr ⟨c, hlater, hsame.symm⟩)
        simp only [List.filter_cons, hdiffers, if_true]
        exact (List.Perm.swap d c _).trans ((ih hlater hrest).cons d)

/-- Laying aside the chosen candidate leaves fewer of them. -/
theorem length_filter_index_lt {f : Filling} {s : State} {window tossed used : Nat}
    {offered : List Candidate} {chosen : Scored}
    (h : s.choose f.reckoning f.plan window f.coins tossed offered = (some chosen, used)) :
    (offered.filter (·.index != chosen.candidate.index)).length < offered.length :=
  List.length_filter_lt_length_iff_exists.mpr
    ⟨chosen.candidate, State.candidate_mem_of_choose h, by simp⟩

/-- A pass takes some of its candidates, each once, and returns the others. -/
theorem pass_takes (window steps : Nat) {candidates : List Candidate} (run : Run)
    (hindex : (candidates.map (·.index)).Nodup) :
    ∃ taken : List Candidate,
      Placement.songs (f.pass fromFallback window steps candidates run).1.state.placements =
          Placement.songs run.state.placements ++ taken.map (·.track) ∧
        (taken ++ (f.pass fromFallback window steps candidates run).2).Perm candidates := by
  induction steps generalizing candidates run with
  | zero => exact ⟨[], (List.append_nil _).symm, List.Perm.refl _⟩
  | succ steps ih =>
      unfold pass
      split
      · split
        · exact ⟨[], (List.append_nil _).symm, List.Perm.refl _⟩
        · rename_i chosen used hsome
          have hothers : ((candidates.filter (·.index != chosen.candidate.index)).map
              (·.index)).Nodup :=
            hindex.sublist (List.filter_sublist.map _)
          obtain ⟨taken, hsongs, hperm⟩ :=
            ih (f.take fromFallback run chosen used) hothers
          refine ⟨chosen.candidate :: taken, ?_, ?_⟩
          · rw [hsongs, songs_take, List.append_assoc]
            rfl
          · exact (hperm.cons chosen.candidate).trans
              (perm_cons_filter_index (State.candidate_mem_of_choose hsome) hindex)
      · exact ⟨[], (List.append_nil _).symm, List.Perm.refl _⟩

theorem map_track_candidates (pool : List Track) : (candidates pool).map (·.track) = pool := by
  unfold candidates
  rw [List.mapIdx_eq_zipIdx_map, List.map_map]
  exact List.zipIdx_map_fst 0 pool

/-- Every candidate of a fresh pass has an index of its own. -/
theorem nodup_index_candidates (pool : List Track) :
    ((candidates pool).map (·.index)).Nodup := by
  have hrange : (candidates pool).map (·.index) = List.range' 0 pool.length := by
    unfold candidates
    rw [List.mapIdx_eq_zipIdx_map, List.map_map]
    exact List.zipIdx_map_snd 0 pool
  rw [hrange]
  exact List.nodup_range'

/-- A single pass adds some tracks of the pool, each at most as often as the pool
holds it. -/
theorem passes_one_takes (window : Nat) (pool : List Track) (run : Run) :
    ∃ taken left : List Track,
      Placement.songs (f.passes fromFallback window pool 1 run).state.placements =
          Placement.songs run.state.placements ++ taken ∧
        (taken ++ left).Perm pool := by
  obtain ⟨taken, hsongs, hperm⟩ :=
    f.pass_takes fromFallback window pool.length run (nodup_index_candidates pool)
  have htracks := hperm.map (·.track)
  rw [List.map_append, map_track_candidates] at htracks
  refine ⟨taken.map (·.track), _, ?_, htracks⟩
  -- After the only pass it makes no difference whether another one would be due.
  simp only [passes, ite_self]
  exact hsongs

/-! ## Phases -/

/-- Without repeats the own phase is a single pass over the own pool. -/
theorem primary_takes (pool : List Track) (hoff : f.plan.allowRepeats = false) :
    ∃ left : List Track,
      (Placement.songs (f.primary pool f.start).state.placements ++ left).Perm pool := by
  obtain ⟨taken, left, hsongs, hperm⟩ :=
    f.passes_one_takes false (f.windowOf pool) pool f.start
  refine ⟨left, ?_⟩
  unfold primary
  rw [if_neg (by rw [hoff]; decide), hsongs]
  exact hperm

/-- What is filled is the own phase and then some tracks of the fallbacks. -/
theorem filled_takes (pools : Pools) :
    ∃ taken left : List Track,
      Placement.songs (Sequence.filled f pools).state.placements =
          Placement.songs (f.primary pools.music f.start).state.placements ++ taken ∧
        (taken ++ left).Perm pools.fallback := by
  unfold Sequence.filled
  simp only
  split
  · exact f.passes_one_takes true _ pools.fallback _
  · -- Without a second phase nothing comes from the fallbacks.
    exact ⟨[], pools.fallback, (List.append_nil _).symm, List.Perm.refl _⟩

end Filling

end Rundown
