import Rundown.Sequence.Choice

/-!
# What the choice of a candidate guarantees

The engine scores the admissible candidates, sets those with a violation of the
separation aside while a clean one is left, and takes the best of the rest.
This file says what follows for the winner whatever the scores and the coins
are: it was admissible, it carries its own scores, and nobody wins only when
nobody was admissible.  `State.Refuses` lists what makes a candidate
inadmissible.  It is not said here that the winner has the best score.
-/

namespace Rundown

namespace Scored

/-- The favourite is replaced only by another entry of the list. -/
theorem bestFrom_mem (coins : Coins) (best : Scored) (used : Nat) (rest : List Scored) :
    (bestFrom coins best used rest).1 ∈ best :: rest := by
  induction rest generalizing best used with
  | nil => simp [bestFrom]
  | cons s rest ih =>
      -- Whoever is the favourite after this entry is `s` or was it before.
      have hstep : ∀ favourite n, favourite = s ∨ favourite = best →
          (bestFrom coins favourite n rest).1 ∈ best :: s :: rest := by
        intro favourite n hfavourite
        rcases List.mem_cons.mp (ih favourite n) with hsame | hlater
        · rw [hsame]
          rcases hfavourite with rfl | rfl <;> simp
        · exact List.mem_cons_of_mem _ (List.mem_cons_of_mem _ hlater)
      unfold bestFrom
      split
      · exact hstep s used (Or.inl rfl)
      · split
        · cases coins used with
          | true => exact hstep s (used + 1) (Or.inl rfl)
          | false => exact hstep best (used + 1) (Or.inr rfl)
        · exact hstep best used (Or.inr rfl)

theorem mem_of_best {coins : Coins} {used after : Nat} {scored : List Scored} {winner : Scored}
    (h : best coins used scored = (some winner, after)) : winner ∈ scored := by
  cases scored with
  | nil => simp [best] at h
  | cons s rest =>
      simp only [best, Prod.mk.injEq, Option.some.injEq] at h
      rw [← h.1]
      exact bestFrom_mem coins s used rest

theorem eq_nil_of_best {coins : Coins} {used after : Nat} {scored : List Scored}
    (h : best coins used scored = (none, after)) : scored = [] ∧ after = used := by
  cases scored with
  | nil =>
      simp only [best, Prod.mk.injEq, true_and] at h
      exact ⟨rfl, h.symm⟩
  | cons s rest => simp [best] at h

end Scored

namespace State

variable {r : Reckoning} {s : State} {plan : Plan} {window : Nat} {coins : Coins}
variable {used after : Nat} {candidates : List Candidate}

/-- The hard conditions one by one. -/
theorem admits_iff {limits : Limits} {t : Track} :
    s.admits r plan limits t = true ↔
      s.fits r plan t = true ∧ ¬ (limits.noRepeat = true ∧ s.isImmediateRepeat t = true) ∧
        ¬ (0 < limits.window ∧ s.isRecent limits.window t = true) ∧
          s.exceedsQuota plan t = false := by
  simp only [admits, Bool.and_eq_true, Bool.not_eq_true', Bool.eq_false_iff, ne_eq,
    decide_eq_true_eq, and_assoc]

/-- A hard condition refuses a track.  The separation is none of them. -/
inductive Refuses (r : Reckoning) (s : State) (plan : Plan) (limits : Limits) (t : Track) : Prop
  /-- The block has a placement already and would exceed its upper bound. -/
  | overlong (h : s.fits r plan t = false)
  /-- The track is among the latest songs of the window. -/
  | recent (hwindow : 0 < limits.window) (h : s.isRecent limits.window t = true)
  /-- A quota that covers the track has reached its greatest share. -/
  | overQuota (h : s.exceedsQuota plan t = true)
  /-- The track is the latest song, and repeats are refused. -/
  | repeated (hrefused : limits.noRepeat = true) (h : s.isImmediateRepeat t = true)

theorem refuses_iff {limits : Limits} {t : Track} :
    s.Refuses r plan limits t ↔ s.admits r plan limits t = false := by
  rw [Bool.eq_false_iff, ne_eq, admits_iff]
  constructor
  · rintro (hfits | ⟨hwindow, hrecent⟩ | hquota | ⟨hrefused, hrepeat⟩) ⟨hfit, hnew, hrare, hbelow⟩
    · rw [hfits] at hfit
      contradiction
    · exact hrare ⟨hwindow, hrecent⟩
    · rw [hquota] at hbelow
      contradiction
    · exact hnew ⟨hrefused, hrepeat⟩
  · intro hadmitted
    by_cases hfits : s.fits r plan t = true
    · by_cases hrepeat : limits.noRepeat = true ∧ s.isImmediateRepeat t = true
      · exact .repeated hrepeat.1 hrepeat.2
      · by_cases hrecent : 0 < limits.window ∧ s.isRecent limits.window t = true
        · exact .recent hrecent.1 hrecent.2
        · -- Only the quotas are left.
          apply Refuses.overQuota
          apply eq_true_of_ne_false
          intro hbelow
          exact hadmitted ⟨hfits, hrepeat, hrecent, hbelow⟩
    · exact .overlong (eq_false_of_ne_true hfits)

theorem not_refuses_iff {limits : Limits} {t : Track} :
    ¬ s.Refuses r plan limits t ↔ s.admits r plan limits t = true := by
  rw [refuses_iff, Bool.not_eq_false]

/-- The entries among which the best one is taken are scored admissible
candidates, whether or not a clean one is left. -/
theorem mem_choice {scored : List Scored} {entry : Scored}
    (h : entry ∈ if (scored.filter (·.violation == 0)).isEmpty then scored
      else scored.filter (·.violation == 0)) : entry ∈ scored := by
  split at h
  · exact h
  · exact (List.mem_filter.mp h).1

/-- The chosen candidate was offered, satisfies the hard conditions and carries
its own scores. -/
theorem choose_eq_some {chosen : Scored}
    (h : s.choose r plan window coins used candidates = (some chosen, after)) :
    ∃ c ∈ candidates,
      s.admits r plan ⟨window, 1 < candidates.length⟩ c.track = true ∧
        chosen = s.score r plan c := by
  have hmem := mem_choice (Scored.mem_of_best h)
  obtain ⟨c, hc, hscore⟩ := List.mem_map.mp hmem
  obtain ⟨hoffered, hadmits⟩ := List.mem_filter.mp hc
  exact ⟨c, hoffered, hadmits, hscore.symm⟩

theorem candidate_mem_of_choose {chosen : Scored}
    (h : s.choose r plan window coins used candidates = (some chosen, after)) :
    chosen.candidate ∈ candidates := by
  obtain ⟨c, hc, _, hscore⟩ := choose_eq_some h
  rw [hscore]
  exact hc

/-- Nothing is chosen only when every candidate is refused by a hard condition. -/
theorem choose_eq_none
    (h : s.choose r plan window coins used candidates = (none, after)) :
    after = used ∧ ∀ c ∈ candidates,
      s.admits r plan ⟨window, 1 < candidates.length⟩ c.track = false := by
  obtain ⟨hnil, hafter⟩ := Scored.eq_nil_of_best h
  refine ⟨hafter, ?_⟩
  intro c hc
  -- A scored entry would be left over even if all entries violate the separation.
  have hempty : (candidates.filter fun c =>
      s.admits r plan ⟨window, 1 < candidates.length⟩ c.track).map (s.score r plan) = [] := by
    split at hnil
    · exact hnil
    · rename_i hclean
      simp [hnil] at hclean
  have hrefused := List.filter_eq_nil_iff.mp (List.map_eq_nil_iff.mp hempty) c hc
  simpa using hrefused

end State

end Rundown
