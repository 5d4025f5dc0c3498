import Rundown.Proofs.Selection

/-!
# What the coins decide

A list of scored candidates is gone through with a favourite, and a coin is tossed
whenever the next entry has the score of the favourite.  The score that is carried on
does not depend on the outcome.  So the winner is always one of the best entries of
the list, and the number of coins is the same whatever they show, which is why later
choices find their coins at the same places.

Every best entry can win: heads until it is the favourite, and tails from then on.
Nothing is said about how likely each of them is.
-/

namespace Rundown.Scored

/-- The combined scores of the entries stand in a linear order: any two of them can be
compared. -/
def Ordered (scored : List Scored) : Prop :=
  ∀ a ∈ scored, ∀ b ∈ scored, a.combined ≤ b.combined ∨ b.combined ≤ a.combined

instance (scored : List Scored) : Decidable (Ordered scored) :=
  inferInstanceAs (Decidable (∀ a ∈ scored, ∀ b ∈ scored, _))

/-- A NaN cannot be compared with itself. -/
theorem Ordered.allNumbers {scored : List Scored} (h : Ordered scored) : AllNumbers scored := by
  intro s hs
  exact Binary64.isNaN_of_le_self ((h s hs s hs).elim id id)

/-- Heads for the first `count` coins, and tails from then on. -/
def headsUntil (count : Nat) : Coins :=
  fun n => decide (n < count)

/-- A favourite that no later entry surpasses is kept by coins that show tails. -/
theorem bestFrom_of_tails {coins : Coins} {best : Scored} {used : Nat} {rest : List Scored}
    (hnumbers : AllNumbers (best :: rest)) (hgreatest : ∀ s ∈ rest, s.rank ≤ best.rank)
    (htails : ∀ n, used ≤ n → coins n = false) :
    (bestFrom coins best used rest).1 = best := by
  induction rest generalizing used with
  | nil => rfl
  | cons t rest ih =>
      obtain ⟨hbest, hnumbersT⟩ := List.forall_mem_cons.mp hnumbers
      obtain ⟨ht, hnumbersRest⟩ := List.forall_mem_cons.mp hnumbersT
      obtain ⟨htLe, hgreatestRest⟩ := List.forall_mem_cons.mp hgreatest
      have hkept : AllNumbers (best :: rest) := List.forall_mem_cons.mpr ⟨hbest, hnumbersRest⟩
      rcases htLe.lt_or_eq with hworse | hsame
      · rw [bestFrom_of_rank_gt ht hbest coins used rest hworse]
        exact ih hkept hgreatestRest htails
      · rw [bestFrom_of_rank_eq ht hbest coins used rest hsame, htails used (Nat.le_refl used)]
        exact ih hkept hgreatestRest fun n hn => htails n (by omega)

/-- A best entry wins with heads for some coins and tails from then on. -/
theorem exists_headsUntil {best winner : Scored} {rest : List Scored}
    (hnumbers : AllNumbers (best :: rest)) (used : Nat) (hmem : winner ∈ best :: rest)
    (hgreatest : ∀ s ∈ best :: rest, s.rank ≤ winner.rank) :
    ∃ count, used ≤ count ∧ (bestFrom (headsUntil count) best used rest).1 = winner := by
  induction rest generalizing best used with
  | nil => exact ⟨used, Nat.le_refl used, (List.mem_singleton.mp hmem).symm⟩
  | cons t rest ih =>
      obtain ⟨hbest, hnumbersT⟩ := List.forall_mem_cons.mp hnumbers
      obtain ⟨ht, hnumbersRest⟩ := List.forall_mem_cons.mp hnumbersT
      obtain ⟨hbestLe, hgreatestT⟩ := List.forall_mem_cons.mp hgreatest
      by_cases hfavourite : winner = best
      · -- The favourite stays with tails from here on.
        refine ⟨used, Nat.le_refl used, ?_⟩
        rw [hfavourite] at hgreatestT ⊢
        exact bestFrom_of_tails hnumbers hgreatestT fun n hn => decide_eq_false (by omega)
      · have hlater : winner ∈ t :: rest := (List.mem_cons.mp hmem).resolve_left hfavourite
        rcases lt_trichotomy t.rank best.rank with hworse | hsame | hbetter
        · -- The entry loses, so the winner comes after it.
          have hother : winner ≠ t := by
            rintro rfl
            exact hworse.not_ge hbestLe
          have hrest : winner ∈ rest := (List.mem_cons.mp hlater).resolve_left hother
          obtain ⟨count, hcount, hwins⟩ := ih
            (List.forall_mem_cons.mpr ⟨hbest, hnumbersRest⟩) used
            (List.mem_cons_of_mem best hrest)
            (List.forall_mem_cons.mpr ⟨hbestLe, (List.forall_mem_cons.mp hgreatestT).2⟩)
          refine ⟨count, hcount, ?_⟩
          rw [bestFrom_of_rank_gt ht hbest _ used rest hworse]
          exact hwins
        · -- Heads make the entry the favourite.
          obtain ⟨count, hcount, hwins⟩ := ih hnumbersT (used + 1) hlater hgreatestT
          refine ⟨count, Nat.le_of_succ_le hcount, ?_⟩
          have hheads : headsUntil count used = true := decide_eq_true hcount
          rw [bestFrom_of_rank_eq ht hbest _ used rest hsame, hheads]
          exact hwins
        · obtain ⟨count, hcount, hwins⟩ := ih hnumbersT used hlater hgreatestT
          refine ⟨count, hcount, ?_⟩
          rw [bestFrom_of_rank_lt ht hbest _ used rest hbetter]
          exact hwins

/-- The rank of the favourite alone decides how many coins are used for the rest. -/
theorem exists_flips_bestFrom {rest : List Scored} (hnumbers : AllNumbers rest)
    (carried : ℤ ×ₗ Binary64.Rank) :
    ∃ flips, ∀ (coins : Coins) (favourite : Scored) (used : Nat),
      favourite.combined.isNaN = false → favourite.rank = carried →
        (bestFrom coins favourite used rest).2 = used + flips := by
  induction rest generalizing carried with
  | nil => exact ⟨0, fun _ _ _ _ _ => rfl⟩
  | cons t rest ih =>
      obtain ⟨ht, hrest⟩ := List.forall_mem_cons.mp hnumbers
      rcases lt_trichotomy t.rank carried with hworse | hsame | hbetter
      · obtain ⟨flips, hflips⟩ := ih hrest carried
        refine ⟨flips, ?_⟩
        rintro coins favourite used hnumber rfl
        rw [bestFrom_of_rank_gt ht hnumber coins used rest hworse]
        exact hflips coins favourite used hnumber rfl
      · obtain ⟨flips, hflips⟩ := ih hrest carried
        refine ⟨flips + 1, ?_⟩
        rintro coins favourite used hnumber rfl
        rw [bestFrom_of_rank_eq ht hnumber coins used rest hsame]
        -- Either outcome carries the same rank on.
        have hcarried : (bestFrom coins (if coins used then t else favourite) (used + 1) rest).2 =
            used + 1 + flips := by
          cases coins used with
          | true => exact hflips coins t (used + 1) ht hsame
          | false => exact hflips coins favourite (used + 1) hnumber rfl
        rw [hcarried]
        omega
      · obtain ⟨flips, hflips⟩ := ih hrest t.rank
        refine ⟨flips, ?_⟩
        rintro coins favourite used hnumber rfl
        rw [bestFrom_of_rank_lt ht hnumber coins used rest hbetter]
        exact hflips coins t used ht rfl

theorem exists_flips {scored : List Scored} (hnumbers : AllNumbers scored) :
    ∃ flips, ∀ (coins : Coins) (used : Nat), (best coins used scored).2 = used + flips := by
  cases scored with
  | nil => exact ⟨0, fun _ _ => rfl⟩
  | cons s rest =>
      obtain ⟨hs, hrest⟩ := List.forall_mem_cons.mp hnumbers
      obtain ⟨flips, hflips⟩ := exists_flips_bestFrom hrest s.rank
      exact ⟨flips, fun coins used => hflips coins s used hs rfl⟩

theorem forall_atMost_iff {scored : List Scored} (hnumbers : AllNumbers scored) {s : Scored}
    (hs : s ∈ scored) : (∀ t ∈ scored, t.AtMost s) ↔ ∀ t ∈ scored, t.rank ≤ s.rank :=
  forall₂_congr fun t ht => atMost_iff_rank_le (hnumbers t ht) (hnumbers s hs)

/-- From a list that is not empty some best entry wins whatever the coins, every best
entry wins with some coins, and all coins are used to the same number. -/
theorem best_attains {scored : List Scored} (hordered : Ordered scored) :
    (scored ≠ [] → ∀ (coins : Coins) (used : Nat), ∃ winner ∈ scored,
      (best coins used scored).1 = some winner ∧ ∀ s ∈ scored, s.AtMost winner) ∧
    (∀ winner ∈ scored, (∀ s ∈ scored, s.AtMost winner) → ∀ used, ∃ coins,
      (best coins used scored).1 = some winner) ∧
    ∃ flips, ∀ (coins : Coins) (used : Nat), (best coins used scored).2 = used + flips := by
  have hnumbers := hordered.allNumbers
  refine ⟨?_, ?_, exists_flips hnumbers⟩
  · intro hsome coins used
    cases hwinner : (best coins used scored).1 with
    | none => exact absurd (eq_nil_of_best (Prod.ext hwinner rfl)).1 hsome
    | some winner =>
        have hmem := mem_of_best (Prod.ext hwinner rfl)
        exact ⟨winner, hmem, rfl,
          (forall_atMost_iff hnumbers hmem).mpr (rank_le_of_best (Prod.ext hwinner rfl) hnumbers)⟩
  · intro winner hmem hgreatest used
    cases scored with
    | nil => exact absurd hmem List.not_mem_nil
    | cons s rest =>
        obtain ⟨count, _, hwins⟩ := exists_headsUntil hnumbers used hmem
          ((forall_atMost_iff hnumbers hmem).mp hgreatest)
        exact ⟨headsUntil count, congrArg some hwins⟩

end Rundown.Scored

namespace Rundown

namespace Sample

/-- Four entries, of which all but the second have the best score. -/
def contest : List Scored :=
  [⟨⟨0, .song "a" "W" 300000⟩, 600000, 1000000, 0⟩,
    ⟨⟨1, .song "b" "X" 200000⟩, 500000, 1000100, 0⟩,
    ⟨⟨2, .song "c" "Y" 300000⟩, 600000, 1000000, 0⟩,
    ⟨⟨3, .song "d" "Z" 300000⟩, 600000, 1000000, 0⟩]

end Sample

namespace Scored

/-- The third entry can win, and two coins are used whatever they show. -/
theorem best_attains_sample :
    let third : Scored := ⟨⟨2, .song "c" "Y" 300000⟩, 600000, 1000000, 0⟩
    Ordered Sample.contest ∧ third ∈ Sample.contest ∧
      (∀ s ∈ Sample.contest, s.AtMost third) ∧
      (∃ coins, (best coins 5 Sample.contest).1 = some third) ∧
      ∀ coins, (best coins 5 Sample.contest).2 = 7 := by
  intro third
  have hordered : Ordered Sample.contest := by decide +kernel
  have hmem : third ∈ Sample.contest := by simp [third, Sample.contest]
  have hgreatest : ∀ s ∈ Sample.contest, s.AtMost third := by decide +kernel
  obtain ⟨_, hattained, flips, hflips⟩ := best_attains hordered
  refine ⟨hordered, hmem, hgreatest, hattained third hmem hgreatest 5, ?_⟩
  have htails : (best (fun _ => false) 5 Sample.contest).2 = 7 := by decide +kernel
  intro coins
  rw [hflips coins 5, ← hflips (fun _ => false) 5, htails]

end Scored

end Rundown
