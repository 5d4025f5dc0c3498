import Rundown.Proofs.Layout

/-!
# What a trim removes

A trim leaves a block as it is or takes one placement out of it.  The removed
placement is music, it is not the only music, the total was above the target
with it, and the total is strictly nearer to the target without it.  This file
does not say that no other removal is better.
-/

namespace Rundown

namespace Trim

/-- A split of a list is at its first entry, or it splits the rest. -/
theorem exists_split_cons {α : Type} {x : α} {xs : List α} {P : List α → α → List α → Prop} :
    (∃ earlier y later, x :: xs = earlier ++ y :: later ∧ P earlier y later) ↔
      P [] x xs ∨ ∃ earlier y later, xs = earlier ++ y :: later ∧ P (x :: earlier) y later := by
  constructor
  · rintro ⟨earlier, y, later, hsplit, hP⟩
    cases earlier with
    | nil =>
        obtain ⟨rfl, rfl⟩ := List.cons.inj hsplit
        exact Or.inl hP
    | cons first earlier =>
        obtain ⟨rfl, hrest⟩ := List.cons.inj hsplit
        exact Or.inr ⟨earlier, y, later, hrest, hP⟩
  · rintro (hP | ⟨earlier, y, later, rfl, hP⟩)
    · exact ⟨[], x, xs, rfl, hP⟩
    · exact ⟨x :: earlier, y, later, rfl, hP⟩

/-- The distance from the target that is left without a placement. -/
def distanceWithout (r : Reckoning) (total target : Int) (p : Placement) : Int :=
  r.hold (r.hold (r.hold (total - p.track.duration) - target)).natAbs

theorem mem_removalsFrom_cons {r : Reckoning} {total target : Int} {index : Nat}
    {before : Option Placement} {p : Placement} {rest : List Placement} {x : Removal} :
    x ∈ removalsFrom r total target index before (p :: rest) ↔
      (p.isMusic = true ∧ joinsRepeats before rest.head? = false ∧
        x = ⟨index, distanceWithout r total target p⟩) ∨
      x ∈ removalsFrom r total target (index + 1) (some p) rest := by
  simp only [removalsFrom, Placement.isMusic, distanceWithout]
  cases p.isAd <;> cases joinsRepeats before rest.head? <;> simp

/-- The removals that come into question are those of music that does not stand
between two of the same track; each carries the distance from the target that is
left without it. -/
theorem mem_removalsFrom_iff {r : Reckoning} {total target : Int} {index : Nat}
    {before : Option Placement} {placements : List Placement} {x : Removal} :
    x ∈ removalsFrom r total target index before placements ↔
      ∃ earlier p later, placements = earlier ++ p :: later ∧ p.isMusic = true ∧
        joinsRepeats (earlier.getLast?.or before) later.head? = false ∧
        x = ⟨index + earlier.length, distanceWithout r total target p⟩ := by
  induction placements generalizing index before with
  | nil => simp [removalsFrom]
  | cons p rest ih =>
      have hbefore : ∀ earlier : List Placement,
          (p :: earlier).getLast?.or before = earlier.getLast?.or (some p) := by
        intro earlier
        rw [List.getLast?_cons]
        cases earlier.getLast? <;> rfl
      rw [mem_removalsFrom_cons, ih, exists_split_cons]
      apply or_congr
      · rfl
      · simp only [hbefore, List.length_cons, Nat.add_right_comm, Nat.add_assoc]

theorem distance_le_of_split {front back : List Removal} {nearest x : Removal}
    (hfront : ∀ y ∈ front, nearest.distance < y.distance)
    (hback : ∀ y ∈ back, nearest.distance ≤ y.distance) (hx : x ∈ front ++ nearest :: back) :
    nearest.distance ≤ x.distance := by
  rcases List.mem_append.mp hx with hx | hx
  · exact Int.le_of_lt (hfront x hx)
  · rcases List.mem_cons.mp hx with rfl | hx
    · exact Int.le_refl _
    · exact hback x hx

/-- Comparing distances from left to right ends at the first of the nearest removals. -/
theorem exists_split_foldl_nearer (first : Removal) (rest : List Removal) :
    ∃ nearest front back, first :: rest = front ++ nearest :: back ∧
      rest.foldl (fun best x => if x.distance < best.distance then x else best) first = nearest ∧
      (∀ x ∈ front, nearest.distance < x.distance) ∧
      ∀ x ∈ back, nearest.distance ≤ x.distance := by
  induction rest generalizing first with
  | nil => exact ⟨first, [], [], rfl, rfl, by simp, by simp⟩
  | cons x rest ih =>
      rw [List.foldl_cons]
      by_cases hnearer : x.distance < first.distance
      · rw [if_pos hnearer]
        obtain ⟨nearest, front, back, hsplit, hfold, hfront, hback⟩ := ih x
        have hx : nearest.distance ≤ x.distance :=
          distance_le_of_split hfront hback (hsplit ▸ List.mem_cons_self)
        refine ⟨nearest, first :: front, back, congrArg (first :: ·) hsplit, hfold, ?_, hback⟩
        exact List.forall_mem_cons.mpr ⟨Int.lt_of_le_of_lt hx hnearer, hfront⟩
      · rw [if_neg hnearer]
        have hx : first.distance ≤ x.distance := Int.not_lt.mp hnearer
        obtain ⟨nearest, front, back, hsplit, hfold, hfront, hback⟩ := ih first
        cases front with
        | nil =>
            -- The first removal stays the nearest; the one compared with it is no nearer.
            obtain ⟨rfl, rfl⟩ := List.cons.inj hsplit
            exact ⟨first, [], x :: rest, rfl, hfold, hfront, List.forall_mem_cons.mpr ⟨hx, hback⟩⟩
        | cons head front =>
            obtain ⟨rfl, rfl⟩ := List.cons.inj hsplit
            obtain ⟨hfirst, hfront⟩ := List.forall_mem_cons.mp hfront
            refine ⟨nearest, first :: x :: front, back, rfl, hfold, ?_, hback⟩
            exact List.forall_mem_cons.mpr ⟨hfirst,
              List.forall_mem_cons.mpr ⟨Int.lt_of_lt_of_le hfirst hx, hfront⟩⟩

theorem exists_split_of_nearest? {removals : List Removal} {x : Removal}
    (h : nearest? removals = some x) :
    ∃ front back, removals = front ++ x :: back ∧
      (∀ y ∈ front, x.distance < y.distance) ∧ ∀ y ∈ back, x.distance ≤ y.distance := by
  cases removals with
  | nil => cases h
  | cons first rest =>
      obtain ⟨nearest, front, back, hsplit, hfold, hfront, hback⟩ :=
        exists_split_foldl_nearer first rest
      simp only [nearest?, Option.some.injEq] at h
      obtain rfl := hfold.symm.trans h
      exact ⟨front, back, hsplit, hfront, hback⟩

theorem mem_of_nearest? {removals : List Removal} {x : Removal}
    (h : nearest? removals = some x) : x ∈ removals := by
  obtain ⟨front, back, hsplit, _, _⟩ := exists_split_of_nearest? h
  rw [hsplit]
  exact List.mem_append_right _ List.mem_cons_self

/-- A removal is made above the target, with other music left, if the nearest one
comes strictly nearer. -/
theorem removal?_eq_some_iff {r : Reckoning} {target : Int} {placements : List Placement}
    {x : Removal} :
    removal? r target placements = some x ↔
      0 < r.hold (Placement.total r placements - target) ∧
        1 < (Placement.music placements).length ∧
        nearest? (removalsFrom r (Placement.total r placements) target 0 none placements) =
          some x ∧
        x.distance < r.hold (Placement.total r placements - target) := by
  unfold removal?
  simp only [Bool.or_eq_true, decide_eq_true_eq]
  split
  · rename_i hguard
    constructor
    · intro h
      contradiction
    · rintro ⟨habove, hseveral, _⟩
      omega
  · rename_i hguard
    simp only [not_or, Int.not_le, Nat.not_le] at hguard
    rw [Option.filter_eq_some_iff, decide_eq_true_iff]
    exact ⟨fun ⟨hnearest, hnearer⟩ => ⟨hguard.1, hguard.2, hnearest, hnearer⟩,
      fun ⟨_, _, hnearest, hnearer⟩ => ⟨hnearest, hnearer⟩⟩

/-- A trim never empties a block: it needs music that it leaves. -/
theorem overshoot_eq_nil_iff (r : Reckoning) (target : Int) (placements : List Placement) :
    (overshoot r target placements).1 = [] ↔ placements = [] := by
  unfold overshoot
  split
  · rename_i x hremoval
    obtain ⟨_, hseveral, _, _⟩ := removal?_eq_some_iff.mp hremoval
    have hmusic : (Placement.music placements).length ≤ placements.length :=
      List.length_filter_le ..
    have hleft := List.le_length_eraseIdx placements x.index
    change placements.eraseIdx x.index = [] ↔ placements = []
    rw [← List.length_eq_zero_iff, ← List.length_eq_zero_iff]
    omega
  · exact Iff.rfl

theorem exists_split_of_removal? {r : Reckoning} {target : Int} {placements : List Placement}
    {x : Removal} (h : removal? r target placements = some x) :
    ∃ earlier removed later, placements = earlier ++ removed :: later ∧
      x.index = earlier.length := by
  obtain ⟨_, _, hnearest, _⟩ := removal?_eq_some_iff.mp h
  obtain ⟨earlier, removed, later, hsplit, _, _, rfl⟩ :=
    mem_removalsFrom_iff.mp (mem_of_nearest? hnearest)
  exact ⟨earlier, removed, later, hsplit, Nat.zero_add _⟩

/-- A removal that is found leaves the parts on either side of its place. -/
theorem overshoot_of_removal? {r : Reckoning} {target : Int}
    {placements earlier later : List Placement} {removed : Placement} {x : Removal}
    (h : removal? r target placements = some x) (hsplit : placements = earlier ++ removed :: later)
    (hindex : x.index = earlier.length) :
    overshoot r target placements = (earlier ++ later, some removed) := by
  simp only [overshoot, h, hindex]
  rw [hsplit, List.eraseIdx_append_of_length_le (Nat.le_refl _)]
  simp

/-- The trim of a block, under any reckoning, takes one placement out from between
two parts of it. -/
structure Cuts (r : Reckoning) (target : Int) (placements earlier : List Placement)
    (removed : Placement) (later : List Placement) : Prop where
  split : placements = earlier ++ removed :: later
  left : overshoot r target placements = (earlier ++ later, some removed)

/-- A trim removes nothing, or it takes one placement out. -/
theorem overshoot_cases (r : Reckoning) (target : Int) (placements : List Placement) :
    overshoot r target placements = (placements, none) ∨
      ∃ earlier removed later, Cuts r target placements earlier removed later := by
  cases hremoval : removal? r target placements with
  | none => exact Or.inl (by simp only [overshoot, hremoval])
  | some x =>
      right
      obtain ⟨earlier, removed, later, hsplit, hindex⟩ := exists_split_of_removal? hremoval
      exact ⟨earlier, removed, later, hsplit, overshoot_of_removal? hremoval hsplit hindex⟩

/-- The trim of a block, with times as integers, removes the placement that
stands between two parts of it. -/
def Removes (target : Int) (placements earlier : List Placement) (removed : Placement)
    (later : List Placement) : Prop :=
  placements = earlier ++ removed :: later ∧
    ∃ distance, removal? .exact target placements = some ⟨earlier.length, distance⟩

variable {target : Int} {placements earlier later : List Placement} {removed : Placement}

/-- A trim that removes something leaves the two parts. -/
theorem Removes.overshoot_eq (h : Removes target placements earlier removed later) :
    overshoot .exact target placements = (earlier ++ later, some removed) := by
  obtain ⟨hsplit, distance, hremoval⟩ := h
  exact overshoot_of_removal? hremoval hsplit rfl

/-- A trim removes nothing, or it removes a placement between two parts. -/
theorem overshoot_exact_cases (target : Int) (placements : List Placement) :
    overshoot .exact target placements = (placements, none) ∨
      ∃ earlier removed later, Removes target placements earlier removed later := by
  cases hremoval : removal? .exact target placements with
  | none => exact Or.inl (by simp only [overshoot, hremoval])
  | some x =>
      right
      obtain ⟨earlier, removed, later, hsplit, hindex⟩ := exists_split_of_removal? hremoval
      refine ⟨earlier, removed, later, hsplit, x.distance, ?_⟩
      rw [hremoval, ← hindex]

theorem exists_removes {removed : Placement}
    (h : (overshoot .exact target placements).2 = some removed) :
    ∃ earlier later, Removes target placements earlier removed later := by
  rcases overshoot_exact_cases target placements with hkept | ⟨earlier, other, later, hremoves⟩
  · rw [hkept] at h
    contradiction
  · rw [hremoves.overshoot_eq] at h
    obtain rfl := Option.some.inj h
    exact ⟨earlier, later, hremoves⟩

theorem Removes.mem (h : Removes target placements earlier removed later) :
    removed ∈ placements := by
  rw [h.1]
  exact List.mem_append_right _ List.mem_cons_self

/-- What a trim leaves was there before. -/
theorem Removes.left_sublist (h : Removes target placements earlier removed later) :
    (earlier ++ later).Sublist placements := by
  rw [h.1]
  exact (List.Sublist.refl earlier).append (List.sublist_cons_self removed later)

/-- What the trim has checked of a removal: the removed placement is music but not
the only music, and the total is strictly nearer to the target without it. -/
theorem Removes.checked (h : Removes target placements earlier removed later) :
    removed.isMusic = true ∧ 1 < (Placement.music placements).length ∧
      ((Placement.total .exact (earlier ++ later) - target).natAbs : Int) <
        Placement.total .exact placements - target := by
  obtain ⟨hsplit, distance, hremoval⟩ := h
  obtain ⟨_, hseveral, hnearest, hnearer⟩ := removal?_eq_some_iff.mp hremoval
  obtain ⟨earlier', removed', later', hsplit', hmusic, _, hx⟩ :=
    mem_removalsFrom_iff.mp (mem_of_nearest? hnearest)
  obtain ⟨hindex, hdistance⟩ := Removal.mk.inj hx
  -- Both splits are at the same position, so they single out the same placement.
  have hlength : earlier.length = earlier'.length := hindex.trans (Nat.zero_add _)
  have hrest := (List.append_inj (hsplit.symm.trans hsplit') hlength).2
  have hsame : removed = removed' := (List.cons.inj hrest).1
  refine ⟨by rw [hsame]; exact hmusic, hseveral, ?_⟩
  simp only [distanceWithout, Reckoning.hold_exact] at hdistance hnearer
  rw [Placement.total_exact_remove earlier removed later, ← hsplit, hsame, ← hdistance]
  exact hnearer

end Trim

end Rundown
