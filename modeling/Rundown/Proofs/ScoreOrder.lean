import Rundown.Proofs.Binary64
import Rundown.Proofs.Choice

/-!
# The order of the scores

As long as no tempo is a NaN, no score is one, and the scores of candidates are
ordered linearly: closeness first, the combined score second.  The winner of a
list has the greatest score whatever the coins are, and a list that uses no coin
has no second entry with the score of its winner.  So the winner of such a list
wins in every order of the list and with all coins.

A violation of any size is allowed, so that a combined score need not be finite; it
is only never a NaN.
-/

namespace Rundown

/-! ## Scores are numbers -/

namespace Score

theorem isFinite_clampFloat {low high x : Float} (hlow : low.isFinite = true)
    (hhigh : high.isFinite = true) (hx : x.isNaN = false) :
    (clampFloat low high x).isFinite = true := by
  unfold clampFloat
  split
  · exact hlow
  · rename_i hleast
    split
    · exact hhigh
    · rename_i hgreatest
      exact Binary64.isFinite_of_between hlow hhigh hx hleast hgreatest

theorem isFinite_energyOfTempo {bpm : Float} (h : bpm.isNaN = false) :
    (energyOfTempo bpm).isFinite = true := by
  have habove : (bpm - quietTempo).isNaN = false :=
    Binary64.isNaN_sub h (by decide) (Or.inr (by decide))
  have hpart : ((bpm - quietTempo) / tempoSpan).isNaN = false :=
    Binary64.isNaN_div habove (by decide)
  have hpercent : ((bpm - quietTempo) / tempoSpan * 100).isNaN = false :=
    Binary64.isNaN_mul hpart (by decide)
  unfold energyOfTempo
  split
  · decide
  · exact isFinite_clampFloat (by decide) (by decide) hpercent

/-- No energy fits better than by 100. -/
theorem below_energyFit {t : Track} (h : t.bpm.isNaN = false) (curve : List Nat)
    (total target : Int) : Binary64.Below (Binary64.parts (energyFit t curve total target)) := by
  unfold energyFit
  split
  · rename_i wanted hwanted
    have hnumber : wanted.isNaN = false := by
      unfold wantedEnergy? at hwanted
      split at hwanted
      · contradiction
      · rw [← Option.some.inj hwanted]
        exact Binary64.isNaN_ofNat _
    have henergy := isFinite_energyOfTempo h
    have hmiss := Binary64.isNaN_sub (Binary64.isNaN_of_isFinite henergy) hnumber (Or.inl henergy)
    have hhundred : Binary64.Within 13 (Binary64.parts (Float.ofNat 100)) :=
      Binary64.within_ofNat (by decide)
    exact Binary64.below_sub hhundred (Binary64.hasSign_parts_abs hmiss) (by decide) (by decide)
  · exact .finite (by decide)

/-- A violation that is too great for a number leaves no more than the negative infinity. -/
theorem isNaN_combined {violation : Int} {energy : Float} (hviolation : 0 ≤ violation)
    (henergy : Binary64.Below (Binary64.parts energy)) :
    (combined violation energy).isNaN = false := by
  obtain ⟨n, rfl⟩ := Int.eq_ofNat_of_zero_le hviolation
  have hclean : Binary64.Within 13 (Binary64.parts (Float.ofNat 1000000)) :=
    Binary64.within_ofNat (by decide)
  have hless := Binary64.below_sub hclean (Binary64.hasSign_ofNat n) (by decide) (by decide)
  exact Binary64.isNaN_add hless henergy

end Score

namespace State

variable (s : State) (plan : Plan)

/-- The worst of some times is one of them. -/
theorem worst_mem_or_eq_zero (times : List Int) : worst times ∈ times ∨ worst times = 0 := by
  have hfoldl : ∀ (rest : List Int) (n : Int), rest.foldl max n ∈ n :: rest := by
    intro rest
    induction rest with
    | nil => intro n; exact List.mem_singleton_self n
    | cons m rest ih =>
        intro n
        rcases List.mem_cons.mp (ih (max n m)) with hgreater | hlater
        · have hchoice : max n m = n ∨ max n m = m := by omega
          rw [List.foldl_cons, hgreater]
          rcases hchoice with hmax | hmax <;> rw [hmax] <;> simp
        · exact List.mem_cons_of_mem _ (List.mem_cons_of_mem _ hlater)
  cases times with
  | nil => exact Or.inr rfl
  | cons n rest => exact Or.inl (hfoldl rest n)

theorem worst_nonneg {times : List Int} (h : ∀ n ∈ times, 0 ≤ n) : 0 ≤ worst times := by
  rcases worst_mem_or_eq_zero times with hmem | hzero
  · exact h _ hmem
  · exact hzero.ge

/-- On integers a track is never too late. -/
theorem shortfall_pos {s : State} {t : Track} {a : Attribute} {gap n : Int}
    (h : s.shortfall? .exact t a gap = some n) : 0 < n := by
  simp only [shortfall?] at h
  split at h
  · split at h
    · rename_i hless
      rw [← Option.some.inj h]
      exact Int.sub_pos_of_lt hless
    · contradiction
  · contradiction

theorem violation_nonneg (t : Track) : 0 ≤ s.violation .exact plan t := by
  unfold violation
  split
  · apply worst_nonneg
    intro n hn
    obtain ⟨⟨a, gap⟩, _, hshort⟩ := List.mem_filterMap.mp hn
    exact (shortfall_pos hshort).le
  · exact le_rfl

/-- A candidate whose tempo is a number has a number for a score. -/
theorem isNaN_score {c : Candidate} (h : c.track.bpm.isNaN = false) :
    (s.score .exact plan c).combined.isNaN = false := by
  apply Score.isNaN_combined (s.violation_nonneg plan c.track)
  split
  · exact Score.below_energyFit h ..
  · exact .finite (by decide)

end State

/-! ## The order -/

namespace Scored

/-- The score of a candidate as a place in a linear order. -/
def rank (s : Scored) : ℤ ×ₗ Binary64.Rank :=
  toLex (s.closeness, Binary64.rank s.combined)

section Comparison

variable {a b : Scored} (ha : a.combined.isNaN = false) (hb : b.combined.isNaN = false)

include ha hb

theorem beats_iff_rank_lt : a.beats b = true ↔ b.rank < a.rank := by
  have hlt := Binary64.lt_iff_rank_lt hb ha
  simp only [beats, rank, Prod.Lex.toLex_lt_toLex, Bool.or_eq_true, Bool.and_eq_true,
    decide_eq_true_eq, beq_iff_eq, hlt, eq_comm (a := a.closeness)]

theorem ties_iff_rank_eq : a.ties b = true ↔ a.rank = b.rank := by
  have heq := Binary64.beq_iff_rank_eq ha hb
  simp only [ties, rank, Bool.and_eq_true, beq_iff_eq, heq, toLex_inj, Prod.mk.injEq]

/-! What becomes of the favourite is decided by the ranks. -/

theorem bestFrom_of_rank_lt (coins : Coins) (used : Nat) (rest : List Scored)
    (h : b.rank < a.rank) :
    bestFrom coins b used (a :: rest) = bestFrom coins a used rest := by
  rw [bestFrom, if_pos ((beats_iff_rank_lt ha hb).mpr h)]

theorem bestFrom_of_rank_eq (coins : Coins) (used : Nat) (rest : List Scored)
    (h : a.rank = b.rank) :
    bestFrom coins b used (a :: rest) =
      bestFrom coins (if coins used then a else b) (used + 1) rest := by
  have hbeats : ¬ a.beats b = true := fun hbeats =>
    h.not_gt ((beats_iff_rank_lt ha hb).mp hbeats)
  rw [bestFrom, if_neg hbeats, if_pos ((ties_iff_rank_eq ha hb).mpr h)]

theorem bestFrom_of_rank_gt (coins : Coins) (used : Nat) (rest : List Scored)
    (h : a.rank < b.rank) :
    bestFrom coins b used (a :: rest) = bestFrom coins b used rest := by
  have hbeats : ¬ a.beats b = true := fun hbeats =>
    h.not_gt ((beats_iff_rank_lt ha hb).mp hbeats)
  have hties : ¬ a.ties b = true := fun hties => h.ne ((ties_iff_rank_eq ha hb).mp hties)
  rw [bestFrom, if_neg hbeats, if_neg hties]

end Comparison

/-- All scores of a list are numbers. -/
def AllNumbers (scored : List Scored) : Prop :=
  ∀ s ∈ scored, s.combined.isNaN = false

/-- Coins are only ever added to those used before. -/
theorem le_used_bestFrom (coins : Coins) (best : Scored) (used : Nat) (rest : List Scored) :
    used ≤ (bestFrom coins best used rest).2 := by
  induction rest generalizing best used with
  | nil => exact le_refl used
  | cons s rest ih =>
      unfold bestFrom
      split
      · exact ih s used
      · split
        · exact (Nat.le_succ used).trans (ih _ (used + 1))
        · exact ih best used

/-- Whatever the coins, no entry has a better score than the winner. -/
theorem rank_le_bestFrom (coins : Coins) {best : Scored} (used : Nat) {rest : List Scored}
    (hnumbers : AllNumbers (best :: rest)) :
    ∀ s ∈ best :: rest, s.rank ≤ (bestFrom coins best used rest).1.rank := by
  induction rest generalizing best used with
  | nil =>
      intro s hs
      rw [List.mem_singleton.mp hs]
      rfl
  | cons t rest ih =>
      have hbest := hnumbers best (by simp)
      have ht := hnumbers t (by simp)
      have hrest : ∀ s ∈ rest, s.combined.isNaN = false := fun s hs => hnumbers s (by simp [hs])
      -- A favourite at least as good as both of them passes the claim on.
      have hstep : ∀ favourite n, favourite = t ∨ favourite = best →
          best.rank ≤ favourite.rank → t.rank ≤ favourite.rank →
          ∀ s ∈ best :: t :: rest, s.rank ≤ (bestFrom coins favourite n rest).1.rank := by
        intro favourite n hfavourite hbestLe htLe s hs
        have hnumbers' : AllNumbers (favourite :: rest) := by
          rcases hfavourite with rfl | rfl
          · exact List.forall_mem_cons.mpr ⟨ht, hrest⟩
          · exact List.forall_mem_cons.mpr ⟨hbest, hrest⟩
        have hwinner := ih n hnumbers'
        rcases List.mem_cons.mp hs with rfl | hs
        · exact hbestLe.trans (hwinner favourite (by simp))
        · rcases List.mem_cons.mp hs with rfl | hs
          · exact htLe.trans (hwinner favourite (by simp))
          · exact hwinner s (by simp [hs])
      rcases lt_trichotomy t.rank best.rank with hworse | hsame | hbetter
      · rw [bestFrom_of_rank_gt ht hbest coins used rest hworse]
        exact hstep best used (Or.inr rfl) le_rfl hworse.le
      · rw [bestFrom_of_rank_eq ht hbest coins used rest hsame]
        cases coins used with
        | true => exact hstep t (used + 1) (Or.inl rfl) hsame.ge le_rfl
        | false => exact hstep best (used + 1) (Or.inr rfl) le_rfl hsame.le
      · rw [bestFrom_of_rank_lt ht hbest coins used rest hbetter]
        exact hstep t used (Or.inl rfl) hbetter.le le_rfl

/-- Without a coin the winner is better than everybody else. -/
theorem bestFrom_untied {coins : Coins} {best : Scored} {used : Nat} {rest : List Scored}
    (hnumbers : AllNumbers (best :: rest)) (huntied : (bestFrom coins best used rest).2 = used) :
    ∃ others, (best :: rest).Perm ((bestFrom coins best used rest).1 :: others) ∧
      ∀ s ∈ others, s.rank < (bestFrom coins best used rest).1.rank := by
  induction rest generalizing best used with
  | nil => exact ⟨[], List.Perm.refl _, nofun⟩
  | cons t rest ih =>
      have hbest := hnumbers best (by simp)
      have ht := hnumbers t (by simp)
      have hrest : ∀ s ∈ rest, s.combined.isNaN = false := fun s hs => hnumbers s (by simp [hs])
      rcases lt_trichotomy t.rank best.rank with hworse | hsame | hbetter
      · rw [bestFrom_of_rank_gt ht hbest coins used rest hworse] at huntied ⊢
        have hnumbers' : AllNumbers (best :: rest) := List.forall_mem_cons.mpr ⟨hbest, hrest⟩
        obtain ⟨others, hperm, hothers⟩ := ih hnumbers' huntied
        have hle := rank_le_bestFrom coins used hnumbers' best (by simp)
        refine ⟨t :: others, ?_, List.forall_mem_cons.mpr ⟨hworse.trans_le hle, hothers⟩⟩
        exact (List.Perm.swap ..).trans ((hperm.cons t).trans (List.Perm.swap ..))
      · -- A tie would have used a coin.
        rw [bestFrom_of_rank_eq ht hbest coins used rest hsame] at huntied
        have hused := le_used_bestFrom coins (if coins used then t else best) (used + 1) rest
        omega
      · rw [bestFrom_of_rank_lt ht hbest coins used rest hbetter] at huntied ⊢
        have hnumbers' : AllNumbers (t :: rest) := List.forall_mem_cons.mpr ⟨ht, hrest⟩
        obtain ⟨others, hperm, hothers⟩ := ih hnumbers' huntied
        have hle := rank_le_bestFrom coins used hnumbers' t (by simp)
        refine ⟨best :: others, (hperm.cons best).trans (List.Perm.swap ..), ?_⟩
        exact List.forall_mem_cons.mpr ⟨hbetter.trans_le hle, hothers⟩

theorem le_used_best (coins : Coins) (used : Nat) (scored : List Scored) :
    used ≤ (best coins used scored).2 := by
  cases scored with
  | nil => exact le_refl used
  | cons s rest => exact le_used_bestFrom coins s used rest

/-- Where no coin was used the winner is the same in any other order of the list,
with any other coins. -/
theorem best_perm {coins : Coins} {used : Nat} {scored reordered : List Scored}
    (hnumbers : AllNumbers scored) (hperm : reordered.Perm scored)
    (huntied : (best coins used scored).2 = used) (coins' : Coins) (used' : Nat) :
    (best coins' used' reordered).1 = (best coins used scored).1 := by
  cases scored with
  | nil => rw [hperm.eq_nil]; rfl
  | cons s rest =>
      cases reordered with
      | nil => exact absurd hperm.symm.eq_nil (by simp)
      | cons s' rest' =>
          obtain ⟨others, hothers, hless⟩ := bestFrom_untied hnumbers huntied
          have hnumbers' : AllNumbers (s' :: rest') := fun t ht => hnumbers t (hperm.subset ht)
          have hmem := bestFrom_mem coins' s' used' rest'
          have hle := rank_le_bestFrom coins' used' hnumbers' _
            (hperm.symm.subset (bestFrom_mem coins s used rest))
          change some (bestFrom coins' s' used' rest').1 = some (bestFrom coins s used rest).1
          -- The second winner is an entry too, and no entry but the first winner
          -- could stand above it.
          rcases List.mem_cons.mp (hothers.subset (hperm.subset hmem)) with hsame | hother
          · rw [hsame]
          · exact absurd (hless _ hother) (not_lt.mpr hle)

end Scored

end Rundown
