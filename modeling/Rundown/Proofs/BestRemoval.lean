import Rundown.Proofs.History
import Rundown.Proofs.Trim

/-!
# The best removal

A trim takes out the placement whose removal comes nearest to the target, the first
one of equals, or none.  What may be taken out is said here of the list alone: music
whose neighbours, if it has both, are different tracks.  Whether a trim is due is
said in the same terms, so that both outcomes are described in full.

Times are integers, of any sign.  The neighbours are those in the list; that two
songs on either side of a break may become the same song in a row is a matter of the
whole block and is not looked at here.
-/

namespace Rundown

namespace Trim

/-- The two placements that meet when a gap is closed are different tracks. -/
def MeetApart (earlier later : List Placement) : Prop :=
  ∀ before ∈ earlier.getLast?, ∀ after ∈ later.head?, before.track.id ≠ after.track.id

/-- A placement of a list that may be taken out, between the parts on either side. -/
structure Removable (placements earlier : List Placement) (p : Placement)
    (later : List Placement) : Prop where
  split : placements = earlier ++ p :: later
  music : p.isMusic = true
  apart : MeetApart earlier later

/-- By how much a list misses the target without one of its placements. -/
def missWithout (target : Int) (placements : List Placement) (p : Placement) : Int :=
  (History.total placements - p.track.duration - target).natAbs

/-- The first of the removals that come nearest to the target. -/
structure Best (target : Int) (placements earlier : List Placement) (removed : Placement)
    (later : List Placement) : Prop where
  removable : Removable placements earlier removed later
  least : ∀ earlier' p later', Removable placements earlier' p later' →
    missWithout target placements removed ≤ missWithout target placements p
  first : ∀ earlier' p later', Removable placements earlier' p later' →
    earlier'.length < earlier.length →
      missWithout target placements removed < missWithout target placements p

/-- The list ends past the target, it holds other music than what is taken out, and
some removal comes strictly nearer to the target. -/
structure Due (target : Int) (placements : List Placement) : Prop where
  above : target < History.total placements
  several : 1 < (Placement.music placements).length
  nearer : ∃ earlier p later, Removable placements earlier p later ∧
    missWithout target placements p < History.total placements - target

variable {target : Int} {placements : List Placement}

theorem joinsRepeats_eq_false_iff {earlier later : List Placement} :
    joinsRepeats earlier.getLast? later.head? = false ↔ MeetApart earlier later := by
  unfold MeetApart
  cases earlier.getLast? with
  | none => simp [joinsRepeats]
  | some before =>
      cases later.head? with
      | none => simp [joinsRepeats]
      | some after => simp [joinsRepeats]

theorem total_exact_eq (placements : List Placement) :
    Placement.total .exact placements = History.total placements := by
  rw [Placement.total, Placement.totalFrom_exact_eq_add_sum, Int.zero_add, History.total]

/-- The removals that come into question for a whole list. -/
def removals (target : Int) (placements : List Placement) : List Removal :=
  removalsFrom .exact (Placement.total .exact placements) target 0 none placements

theorem mem_removals_iff {x : Removal} :
    x ∈ removals target placements ↔ ∃ earlier p later, Removable placements earlier p later ∧
      x = ⟨earlier.length, missWithout target placements p⟩ := by
  have hdistance : ∀ p, distanceWithout .exact (Placement.total .exact placements) target p =
      missWithout target placements p := by
    intro p
    rw [total_exact_eq]
    rfl
  unfold removals
  rw [mem_removalsFrom_iff]
  constructor
  · rintro ⟨earlier, p, later, hsplit, hmusic, happart, rfl⟩
    rw [Option.or_none, joinsRepeats_eq_false_iff] at happart
    refine ⟨earlier, p, later, ⟨hsplit, hmusic, happart⟩, ?_⟩
    rw [Nat.zero_add, hdistance]
  · rintro ⟨earlier, p, later, hremovable, rfl⟩
    refine ⟨earlier, p, later, hremovable.split, hremovable.music, ?_, ?_⟩
    · rw [Option.or_none, joinsRepeats_eq_false_iff]
      exact hremovable.apart
    · rw [Nat.zero_add, hdistance]

theorem Removable.mem_removals {earlier later : List Placement} {p : Placement}
    (h : Removable placements earlier p later) (target : Int) :
    ⟨earlier.length, missWithout target placements p⟩ ∈ removals target placements :=
  mem_removals_iff.mpr ⟨earlier, p, later, h, rfl⟩

/-- The removals come in the order of the placements. -/
theorem pairwise_index_removalsFrom (r : Reckoning) (total target : Int) (index : Nat)
    (before : Option Placement) (placements : List Placement) :
    (removalsFrom r total target index before placements).Pairwise (·.index < ·.index) := by
  induction placements generalizing index before with
  | nil => exact List.Pairwise.nil
  | cons p rest ih =>
      unfold removalsFrom
      split
      · exact ih (index + 1) (some p)
      · refine List.Pairwise.cons ?_ (ih (index + 1) (some p))
        intro x hx
        obtain ⟨earlier, _, _, _, _, _, rfl⟩ := mem_removalsFrom_iff.mp hx
        change index < index + 1 + earlier.length
        omega

theorem nearest?_removals {x : Removal} (h : removal? .exact target placements = some x) :
    nearest? (removals target placements) = some x :=
  (removal?_eq_some_iff.mp h).2.2.1

/-- The removal that is found is the best one. -/
theorem best_of_removal? {x : Removal} (h : removal? .exact target placements = some x) :
    ∃ earlier removed later, Best target placements earlier removed later ∧
      x = ⟨earlier.length, missWithout target placements removed⟩ := by
  have hnearest := nearest?_removals h
  obtain ⟨earlier, removed, later, hremovable, rfl⟩ :=
    mem_removals_iff.mp (mem_of_nearest? hnearest)
  obtain ⟨front, back, hsplit, hfront, hback⟩ := exists_split_of_nearest? hnearest
  have horder : (removals target placements).Pairwise (·.index < ·.index) :=
    pairwise_index_removalsFrom ..
  rw [hsplit] at horder
  obtain ⟨_, hafter, _⟩ := List.pairwise_append.mp horder
  refine ⟨earlier, removed, later, ⟨hremovable, ?_, ?_⟩, rfl⟩
  · intro earlier' p later' hother
    have hmem := hother.mem_removals target
    rw [hsplit] at hmem
    exact distance_le_of_split hfront hback hmem
  · -- What stands before the removed placement was compared before it.
    intro earlier' p later' hother hbefore
    have hmem := hother.mem_removals target
    rw [hsplit] at hmem
    rcases List.mem_append.mp hmem with hmem | hmem
    · exact hfront _ hmem
    · have hindex : earlier.length ≤ earlier'.length := by
        rcases List.mem_cons.mp hmem with hsame | hmem
        · exact (congrArg Removal.index hsame).ge
        · exact (List.rel_of_pairwise_cons hafter hmem).le
      omega

/-- A removal is found exactly when a trim is due. -/
theorem exists_removal?_iff :
    (∃ x, removal? .exact target placements = some x) ↔ Due target placements := by
  constructor
  · rintro ⟨x, h⟩
    obtain ⟨habove, hseveral, _, hnearer⟩ := removal?_eq_some_iff.mp h
    obtain ⟨earlier, p, later, hremovable, rfl⟩ :=
      mem_removals_iff.mp (mem_of_nearest? (nearest?_removals h))
    rw [Reckoning.hold_exact, total_exact_eq] at habove hnearer
    exact ⟨by omega, hseveral, earlier, p, later, hremovable, hnearer⟩
  · rintro ⟨habove, hseveral, earlier, p, later, hremovable, hnearer⟩
    have hmem := hremovable.mem_removals target
    obtain ⟨x, hnearest⟩ : ∃ x, nearest? (removals target placements) = some x := by
      obtain ⟨first, rest, hremovals⟩ := List.exists_cons_of_ne_nil (List.ne_nil_of_mem hmem)
      rw [hremovals]
      exact ⟨_, rfl⟩
    obtain ⟨front, back, hsplit, hfront, hback⟩ := exists_split_of_nearest? hnearest
    have hle : x.distance ≤ missWithout target placements p :=
      distance_le_of_split hfront hback (hsplit ▸ hmem)
    refine ⟨x, removal?_eq_some_iff.mpr ⟨?_, hseveral, hnearest, ?_⟩⟩
    · rw [Reckoning.hold_exact, total_exact_eq]
      omega
    · rw [Reckoning.hold_exact, total_exact_eq]
      omega

/-- Taking out music leaves every interstitial. -/
theorem Removable.filter_isAd {earlier later : List Placement} {p : Placement}
    (h : Removable placements earlier p later) :
    (earlier ++ later).filter (·.isAd) = placements.filter (·.isAd) := by
  have hkind : p.isAd = false := by simpa [Placement.isMusic] using h.music
  rw [h.split, List.filter_append, List.filter_append, List.filter_cons_of_neg (by simp [hkind])]

/-- Of several songs one is left. -/
theorem Removable.music_ne_nil {earlier later : List Placement} {p : Placement}
    (h : Removable placements earlier p later)
    (hseveral : 1 < (Placement.music placements).length) :
    Placement.music (earlier ++ later) ≠ [] := by
  have hone : Placement.music [p] = [p] := List.filter_cons_of_pos h.music
  have hall : Placement.music placements =
      Placement.music earlier ++ ([p] ++ Placement.music later) := by
    rw [h.split, ← List.singleton_append, Placement.music_append, Placement.music_append, hone]
  rw [hall, List.length_append, List.length_append, List.length_singleton] at hseveral
  rw [← List.length_pos_iff, Placement.music_append, List.length_append]
  omega

/-- A trim that is not due changes nothing.  One that is due takes out the first of the
placements without which the list comes nearest to the target: the others keep their
order, all interstitials and some music stay, and the placements that now meet are
different tracks. -/
theorem overshoot_best (target : Int) (placements : List Placement) :
    ¬ Due target placements ∧ overshoot .exact target placements = (placements, none) ∨
      Due target placements ∧ ∃ earlier removed later,
        Best target placements earlier removed later ∧
        overshoot .exact target placements = (earlier ++ later, some removed) ∧
        (earlier ++ later).filter (·.isAd) = placements.filter (·.isAd) ∧
        Placement.music (earlier ++ later) ≠ [] ∧ MeetApart earlier later := by
  cases hremoval : removal? .exact target placements with
  | none =>
      left
      constructor
      · intro hdue
        obtain ⟨x, hx⟩ := exists_removal?_iff.mpr hdue
        rw [hremoval] at hx
        contradiction
      · simp only [overshoot, hremoval]
  | some x =>
      right
      have hdue : Due target placements := exists_removal?_iff.mp ⟨x, hremoval⟩
      obtain ⟨earlier, removed, later, hbest, rfl⟩ := best_of_removal? hremoval
      have hremoves : Removes target placements earlier removed later :=
        ⟨hbest.removable.split, _, hremoval⟩
      exact ⟨hdue, earlier, removed, later, hbest, hremoves.overshoot_eq,
        hbest.removable.filter_isAd, hbest.removable.music_ne_nil hdue.several,
        hbest.removable.apart⟩

end Trim

end Rundown
