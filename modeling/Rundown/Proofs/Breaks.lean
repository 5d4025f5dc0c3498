import Rundown.Proofs.Finish
import Rundown.Proofs.History

/-!
# Breaks in a built and in a finished block

Interstitials are placed in breaks only, and a break follows music.  So a block
under construction begins with music, and no more interstitials follow one
another than a break offers.

The trim removes music and looks at no break.  It may remove the music before
the first break, or the only music between two of them.  A finished block is
therefore well paced if and only if the breaks on both sides of the removed
placement, taken together, are no longer than one, and there is none when that
placement was the first.
-/

namespace Rundown

/-! ## Runs of marks -/

namespace Marks

/-- How many marks are set at the beginning. -/
def opening (marks : List Bool) : Nat :=
  (marks.takeWhile id).length

/-- How many marks are set at the end. -/
def closing (marks : List Bool) : Nat :=
  opening marks.reverse

/-- No more than `n` set marks follow one another. -/
def RunsWithin (n : Nat) (marks : List Bool) : Prop :=
  ∀ count, List.replicate count true <:+: marks → count ≤ n

theorem replicate_prefix_iff {count : Nat} {marks : List Bool} :
    List.replicate count true <+: marks ↔ count ≤ opening marks := by
  induction marks generalizing count with
  | nil => simp [opening]
  | cons mark rest ih =>
      cases count with
      | zero => simp
      | succ count =>
          rw [List.replicate_succ, List.cons_prefix_cons, ih]
          cases mark with
          | false => simp [opening]
          | true => simp [opening]

theorem replicate_suffix_iff {count : Nat} {marks : List Bool} :
    List.replicate count true <:+ marks ↔ count ≤ closing marks := by
  rw [← List.reverse_prefix, List.reverse_replicate, replicate_prefix_iff]
  rfl

/-- Where two lists meet, the run at the end of one goes on in the other. -/
theorem runsWithin_append {n : Nat} {xs ys : List Bool} :
    RunsWithin n (xs ++ ys) ↔
      RunsWithin n xs ∧ RunsWithin n ys ∧ closing xs + opening ys ≤ n := by
  constructor
  · intro h
    refine ⟨fun count hrun => h count (hrun.trans (List.infix_append_left ..)),
      fun count hrun => h count (hrun.trans (List.infix_append_right ..)), ?_⟩
    apply h
    rw [← List.replicate_append_replicate]
    exact List.infix_append_iff.mpr (Or.inr (Or.inr
      ⟨_, _, rfl, replicate_suffix_iff.mpr (Nat.le_refl _),
        replicate_prefix_iff.mpr (Nat.le_refl _)⟩))
  · rintro ⟨hxs, hys, hmeet⟩ count hrun
    rcases List.infix_append_iff.mp hrun with hleft | hright | ⟨front, back, hsplit, hfront, hback⟩
    · exact hxs count hleft
    · exact hys count hright
    · -- The run is cut in two by the place where the lists meet.
      obtain ⟨hlength, hfrontRun, hbackRun⟩ := List.append_eq_replicate_iff.mp hsplit.symm
      rw [hfrontRun] at hfront
      rw [hbackRun] at hback
      have hends := replicate_suffix_iff.mp hfront
      have hopens := replicate_prefix_iff.mp hback
      omega

theorem RunsWithin.closing_le {n : Nat} {marks : List Bool} (h : RunsWithin n marks) :
    closing marks ≤ n :=
  h _ (replicate_suffix_iff.mpr (Nat.le_refl _)).isInfix

theorem runsWithin_replicate {n count : Nat} (hcount : count ≤ n) :
    RunsWithin n (List.replicate count true) := by
  intro length hrun
  have hlength := hrun.length_le
  rw [List.length_replicate, List.length_replicate] at hlength
  omega

@[simp]
theorem opening_cons_false (marks : List Bool) : opening (false :: marks) = 0 := rfl

theorem RunsWithin.cons_false {n : Nat} {marks : List Bool} (h : RunsWithin n marks) :
    RunsWithin n (false :: marks) := by
  intro count hrun
  rcases List.infix_cons_iff.mp hrun with hfirst | hlater
  · have hnone := replicate_prefix_iff.mp hfirst
    rw [opening_cons_false] at hnone
    omega
  · exact h count hlater

/-- An unset mark ends a run, so that another one may follow. -/
theorem RunsWithin.append_run {n count : Nat} {marks : List Bool} (h : RunsWithin n marks)
    (hcount : count ≤ n) : RunsWithin n (marks ++ false :: List.replicate count true) := by
  have hends := h.closing_le
  exact runsWithin_append.mpr ⟨h, (runsWithin_replicate hcount).cons_false, hends⟩

end Marks

namespace Placement

/-- Which of the placements are interstitials. -/
def marks (placements : List Placement) : List Bool :=
  placements.map (·.isAd)

theorem marks_append (xs ys : List Placement) : marks (xs ++ ys) = marks xs ++ marks ys :=
  List.map_append

/-- Laying placements out anew changes no mark. -/
@[simp]
theorem marks_layOut (r : Reckoning) (placements : List Placement) :
    marks (layOut r placements) = marks placements :=
  map_layOutFrom (·.isAd) (fun _ _ _ => rfl) r 0 placements

/-- The first placement is no interstitial, and no more than `n` interstitials
follow one another. -/
structure WellPaced (n : Nat) (placements : List Placement) : Prop where
  opens : (marks placements).head? ≠ some true
  breaks : Marks.RunsWithin n (marks placements)

/-- Pacing is a matter of marks. -/
theorem wellPaced_iff {n : Nat} {placements : List Placement} :
    WellPaced n placements ↔
      (marks placements).head? ≠ some true ∧ Marks.RunsWithin n (marks placements) :=
  ⟨fun h => ⟨h.opens, h.breaks⟩, fun h => ⟨h.1, h.2⟩⟩

theorem wellPaced_layOut_iff {n : Nat} {r : Reckoning} {placements : List Placement} :
    WellPaced n (layOut r placements) ↔ WellPaced n placements := by
  rw [wellPaced_iff, wellPaced_iff, marks_layOut]

theorem wellPaced_nil (n : Nat) : WellPaced n [] := by
  refine ⟨by simp [marks], ?_⟩
  intro count hrun
  have hlength := hrun.length_le
  rw [List.length_replicate] at hlength
  exact Nat.le_trans hlength (Nat.zero_le n)

end Placement

namespace Filling

variable (f : Filling) (fromFallback : Bool)

/-! ## A block under construction -/

/-- A break appends at most as many interstitials as it offers. -/
theorem marks_offer (count : Nat) (run : Run) :
    ∃ placed ≤ count, Placement.marks (f.offer fromFallback count run).state.placements =
      Placement.marks run.state.placements ++ List.replicate placed true := by
  induction count generalizing run with
  | zero => exact ⟨0, Nat.le_refl 0, (List.append_nil _).symm⟩
  | succ count ih =>
      unfold offer
      split
      · exact ⟨0, Nat.zero_le _, (List.append_nil _).symm⟩
      · rename_i ad _
        split
        · obtain ⟨placed, hplaced, hmarks⟩ := ih
            ⟨run.state.placeAd f.reckoning ad fromFallback, (run.turn + 1) % f.ads.length,
              run.coinsUsed⟩
          refine ⟨placed + 1, Nat.succ_le_succ hplaced, ?_⟩
          have had : Placement.marks (run.state.placeAd f.reckoning ad fromFallback).placements =
              Placement.marks run.state.placements ++ [true] := Placement.marks_append ..
          rw [hmarks, had, List.replicate_succ, List.append_assoc]
          rfl
        · -- An interstitial that does not fit uses up an offer and leaves no mark.
          obtain ⟨placed, hplaced, hmarks⟩ := ih
            ⟨run.state, (run.turn + 1) % f.ads.length, run.coinsUsed⟩
          exact ⟨placed, Nat.le_succ_of_le hplaced, hmarks⟩

/-- A turn appends music and at most one break. -/
theorem marks_take (run : Run) (chosen : Scored) (used : Nat) :
    ∃ placed ≤ f.plan.breaks.perBreak,
      Placement.marks (f.take fromFallback run chosen used).state.placements =
        Placement.marks run.state.placements ++ false :: List.replicate placed true := by
  have hmusic : Placement.marks
      ({ run.state with
          relaxed := run.state.relaxed || chosen.violation != 0 }.placeMusic f.reckoning f.plan
        chosen.candidate.track fromFallback).placements =
      Placement.marks run.state.placements ++ [false] := Placement.marks_append ..
  unfold take takeBreak
  simp only
  split
  · obtain ⟨placed, hplaced, hmarks⟩ := f.marks_offer fromFallback f.plan.breaks.perBreak _
    refine ⟨placed, hplaced, hmarks.trans ?_⟩
    rw [hmusic, List.append_assoc]
    rfl
  · exact ⟨0, Nat.zero_le _, hmusic⟩

/-- A turn keeps a block well paced. -/
theorem wellPaced_take {run : Run} (chosen : Scored) (used : Nat)
    (h : Placement.WellPaced f.plan.breaks.perBreak run.state.placements) :
    Placement.WellPaced f.plan.breaks.perBreak
      (f.take fromFallback run chosen used).state.placements := by
  obtain ⟨placed, hplaced, hmarks⟩ := f.marks_take fromFallback run chosen used
  constructor
  · rw [hmarks]
    have hopens := h.opens
    -- The first mark stays what it was, and in an empty block it is the music's.
    cases hbefore : Placement.marks run.state.placements with
    | nil => simp
    | cons mark rest =>
        rw [hbefore] at hopens
        simpa using hopens
  · rw [hmarks]
    exact h.breaks.append_run hplaced

/-- A block is well paced before it is trimmed. -/
theorem filled_wellPaced (pools : Pools) :
    Placement.WellPaced f.plan.breaks.perBreak (Sequence.filled f pools).state.placements :=
  filled_invariant (P := fun run => Placement.WellPaced f.plan.breaks.perBreak run.state.placements)
    (Placement.wellPaced_nil _)
    fun fromFallback _ _ used h _ => f.wellPaced_take fromFallback _ used h

end Filling

/-! ## A finished block -/

/-- A trim does not open a block with a break, and it joins no two breaks to one
that is too long. -/
def Trim.SparesBreaks (r : Reckoning) (plan : Plan) (placements : List Placement) : Prop :=
  ∀ earlier removed later, Cuts r plan.target placements earlier removed later →
    (earlier = [] → Marks.opening (Placement.marks later) = 0) ∧
      Marks.closing (Placement.marks earlier) + Marks.opening (Placement.marks later) ≤
        plan.breaks.perBreak

theorem Marks.opening_eq_zero_iff {marks : List Bool} :
    opening marks = 0 ↔ marks.head? ≠ some true := by
  cases marks with
  | nil => simp [opening]
  | cons mark rest => cases mark <;> simp [opening]

/-- Two parts of a well paced block are well paced together exactly if the breaks
where they meet are. -/
theorem Placement.wellPaced_join_iff {n : Nat} {earlier later : List Placement}
    {removed : Placement} (h : WellPaced n (earlier ++ removed :: later)) :
    WellPaced n (earlier ++ later) ↔
      (earlier = [] → Marks.opening (marks later) = 0) ∧
        Marks.closing (marks earlier) + Marks.opening (marks later) ≤ n := by
  have hruns := h.breaks
  rw [List.append_cons, marks_append, Marks.runsWithin_append] at hruns
  obtain ⟨hfront, hlater, _⟩ := hruns
  rw [marks_append, Marks.runsWithin_append] at hfront
  constructor
  · intro hjoined
    refine ⟨?_, ?_⟩
    · rintro rfl
      exact Marks.opening_eq_zero_iff.mpr hjoined.opens
    · have hboth := hjoined.breaks
      rw [marks_append, Marks.runsWithin_append] at hboth
      exact hboth.2.2
  · rintro ⟨hopening, hmeet⟩
    constructor
    · cases earlier with
      | nil => exact Marks.opening_eq_zero_iff.mp (hopening rfl)
      | cons p rest => exact h.opens
    · rw [marks_append, Marks.runsWithin_append]
      exact ⟨hfront.1, hlater, hmeet⟩

namespace Sequence

/-- Finishing leaves a block well paced exactly if the trim spares its breaks. -/
theorem finish_wellPaced_iff {r : Reckoning} {plan : Plan} {s : State}
    (h : Placement.WellPaced plan.breaks.perBreak s.placements) :
    Placement.WellPaced plan.breaks.perBreak (finish r plan s).placements ↔
      Trim.SparesBreaks r plan s.placements := by
  rw [finish_iff (fun _ => Placement.wellPaced_layOut_iff) h]
  refine forall₃_congr fun earlier removed later => imp_congr_right fun hcuts => ?_
  rw [hcuts.split] at h
  exact Placement.wellPaced_join_iff h

/-- Every block is built well paced, and the result is well paced exactly if the
trim spares its breaks. -/
theorem build_wellPaced_iff (r : Reckoning) (plan : Plan) (pools : Pools) (coins : Coins) :
    Placement.WellPaced plan.breaks.perBreak (untrimmed r plan pools coins) ∧
      (Placement.WellPaced plan.breaks.perBreak (build r plan pools coins).1.placements ↔
        Trim.SparesBreaks r plan (untrimmed r plan pools coins)) := by
  have hfilled : Placement.WellPaced plan.breaks.perBreak (untrimmed r plan pools coins) :=
    Filling.filled_wellPaced ⟨r, plan, pools.ads, coins⟩ pools
  exact ⟨hfilled, finish_wellPaced_iff hfilled⟩

end Sequence

namespace Sample

/-- Three minutes with a tolerance of one and a break after every song. -/
def pacedRules : Document :=
  ⟨[("targetMinutes", .int 3), ("durationAccuracy", .int 60),
    ("interstitials", .obj [("enabled", .bool true), ("genre", .str "Ads"), ("every", .int 1)])]⟩

/-- The plan of a block with short songs and long breaks. -/
def paced : Plan := Plan.ofDocuments pacedRules .empty 2026

/-- Two songs that are both shorter than the interstitial. -/
def pacedPools : Pools :=
  ⟨[.song "a" "X" 52000, .song "b" "Y" 49000], [.song "ad" "Z" 65000], []⟩

end Sample

namespace Sequence

/-- A result can begin with an interstitial: the block is built as song, break,
song, break, and the trim removes the first song. -/
theorem not_forall_build_wellPaced :
    ¬ ∀ (rules sequence : Document) (year : Int) (pools : Pools) (coins : Coins),
      let plan := Plan.ofDocuments rules sequence year
      plan.breaks.enabled = true → pools.AllTimed →
        Placement.WellPaced plan.breaks.perBreak (build .exact plan pools coins).1.placements := by
  intro h
  have hpaced := h Sample.pacedRules .empty 2026 Sample.pacedPools Sample.coins
    (by decide +kernel) (by decide)
  have hopens : (Placement.marks
      (build .exact Sample.paced Sample.pacedPools Sample.coins).1.placements).head? =
        some true := by
    decide +kernel
  exact hpaced.opens hopens

end Sequence

end Rundown
