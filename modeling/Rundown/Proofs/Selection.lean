import Rundown.Proofs.History
import Rundown.Proofs.Reordering

/-!
# The best of what is admissible

A choice goes through its candidates in four stages: the hard conditions refuse
some of them, the rest get their scores, those with a violation of the separation
are set aside while a clean one is left, and the favourite is kept through all
the comparisons.  Taken together this is a maximum: the chosen candidate is not
refused, it is clean if any such candidate is, and no candidate of its kind has
a better score.  A violating track that lies closer to the target never wins
over a clean one.

The coins decide only which of several best candidates is chosen, and nothing is
said about that here.  The scores are ordered as long as no tempo is a NaN.
-/

namespace Rundown

namespace Scored

/-- A score is no better than another one: the closeness is less, or it is the same
and the combined score is at most the other. -/
def AtMost (a b : Scored) : Prop :=
  a.closeness < b.closeness ∨ a.closeness = b.closeness ∧ a.combined ≤ b.combined

instance (a b : Scored) : Decidable (a.AtMost b) :=
  inferInstanceAs (Decidable (_ ∨ _ ∧ _))

theorem atMost_iff_rank_le {a b : Scored} (ha : a.combined.isNaN = false)
    (hb : b.combined.isNaN = false) : a.AtMost b ↔ a.rank ≤ b.rank := by
  unfold AtMost rank
  rw [Prod.Lex.toLex_le_toLex, Binary64.le_iff_rank_le ha hb]

/-- The winner of a list has the greatest score of its entries. -/
theorem rank_le_of_best {coins : Coins} {used after : Nat} {scored : List Scored}
    {winner : Scored} (h : best coins used scored = (some winner, after))
    (hnumbers : AllNumbers scored) : ∀ s ∈ scored, s.rank ≤ winner.rank := by
  cases scored with
  | nil => exact fun _ hs => absurd hs List.not_mem_nil
  | cons s rest =>
      simp only [best, Prod.mk.injEq, Option.some.injEq] at h
      rw [← h.1]
      exact rank_le_bestFrom coins used hnumbers

end Scored

namespace State

variable {s : State} {plan : Plan} {window : Nat} {candidates : List Candidate}

/-- The contenders are the admissible candidates with their scores, and where one of
them is clean, the clean ones. -/
theorem mem_contenders_iff {r : Reckoning} {entry : Scored} :
    entry ∈ s.contenders r plan window candidates ↔
      ∃ c ∈ candidates, s.admits r plan ⟨window, 1 < candidates.length⟩ c.track = true ∧
        s.score r plan c = entry ∧
          ((∃ d ∈ candidates, s.admits r plan ⟨window, 1 < candidates.length⟩ d.track = true ∧
            s.violation r plan d.track = 0) → entry.violation = 0) := by
  have hscored : ∀ x, x ∈ (candidates.filter fun c =>
        s.admits r plan ⟨window, 1 < candidates.length⟩ c.track).map (s.score r plan) ↔
      ∃ c ∈ candidates, s.admits r plan ⟨window, 1 < candidates.length⟩ c.track = true ∧
        s.score r plan c = x := by
    intro x
    simp only [List.mem_map, List.mem_filter, and_assoc]
  simp only [contenders]
  split
  · -- Nobody is clean, so there is nothing to be asked of the entry.
    rename_i hempty
    rw [hscored]
    constructor
    · rintro ⟨c, hc, hadmits, hscore⟩
      refine ⟨c, hc, hadmits, hscore, ?_⟩
      rintro ⟨d, hd, hadmitted, hclean⟩
      have hmem := (hscored (s.score r plan d)).mpr ⟨d, hd, hadmitted, rfl⟩
      have hnone := List.filter_eq_nil_iff.mp (List.isEmpty_iff.mp hempty) _ hmem
      exact absurd (beq_iff_eq.mpr hclean) hnone
    · rintro ⟨c, hc, hadmits, hscore, _⟩
      exact ⟨c, hc, hadmits, hscore⟩
  · rename_i hsome
    rw [List.mem_filter, hscored, beq_iff_eq]
    constructor
    · rintro ⟨⟨c, hc, hadmits, hscore⟩, hclean⟩
      exact ⟨c, hc, hadmits, hscore, fun _ => hclean⟩
    · rintro ⟨c, hc, hadmits, hscore, hclean⟩
      refine ⟨⟨c, hc, hadmits, hscore⟩, hclean ?_⟩
      rw [List.isEmpty_iff] at hsome
      obtain ⟨x, hx⟩ := List.exists_mem_of_ne_nil _ hsome
      obtain ⟨hmem, hzero⟩ := List.mem_filter.mp hx
      obtain ⟨d, hd, hadmitted, rfl⟩ := (hscored x).mp hmem
      exact ⟨d, hd, hadmitted, beq_iff_eq.mp hzero⟩

/-- What is chosen from candidates: the best of those that no hard condition refuses. -/
structure Prefers (s : State) (plan : Plan) (limits : Limits) (candidates : List Candidate)
    (chosen : Scored) : Prop where
  offered : chosen.candidate ∈ candidates
  admitted : ¬ s.Refuses .exact plan limits chosen.candidate.track
  scored : chosen = s.score .exact plan chosen.candidate
  /-- It violates the separation only where every other one does. -/
  clean_iff : chosen.violation = 0 ↔ ∃ c ∈ candidates,
    ¬ s.Refuses .exact plan limits c.track ∧ s.violation .exact plan c.track = 0
  /-- Among the clean ones, or else among the violating ones, none has a better score. -/
  best : ∀ c ∈ candidates, ¬ s.Refuses .exact plan limits c.track →
    (s.violation .exact plan c.track = 0 ↔ chosen.violation = 0) →
      (s.score .exact plan c).AtMost chosen

theorem choose_eq_best (r : Reckoning) (coins : Coins) (used : Nat) :
    s.choose r plan window coins used candidates =
      Scored.best coins used (s.contenders r plan window candidates) := rfl

/-- The winner among the contenders is preferred. -/
theorem prefers_of_choose {coins : Coins} {used after : Nat} {chosen : Scored}
    (htempo : ∀ c ∈ candidates, c.track.bpm.isNaN = false)
    (h : s.choose .exact plan window coins used candidates = (some chosen, after)) :
    s.Prefers plan ⟨window, 1 < candidates.length⟩ candidates chosen := by
  rw [choose_eq_best] at h
  obtain ⟨c, hc, hadmits, rfl, hclean⟩ := mem_contenders_iff.mp (Scored.mem_of_best h)
  have hgreatest := Scored.rank_le_of_best h (allNumbers_contenders htempo)
  constructor
  · exact hc
  · exact not_refuses_iff.mpr hadmits
  · rfl
  · constructor
    · intro hzero
      exact ⟨c, hc, not_refuses_iff.mpr hadmits, hzero⟩
    · rintro ⟨d, hd, hadmitted, hzero⟩
      exact hclean ⟨d, hd, not_refuses_iff.mp hadmitted, hzero⟩
  · intro d hd hadmitted hkind
    have hmem : s.score .exact plan d ∈ s.contenders .exact plan window candidates :=
      mem_contenders_iff.mpr ⟨d, hd, not_refuses_iff.mp hadmitted, rfl,
        fun hsome => hkind.mpr (hclean hsome)⟩
    exact (Scored.atMost_iff_rank_le (s.isNaN_score plan (htempo d hd))
      (s.isNaN_score plan (htempo c hc))).mpr (hgreatest _ hmem)

/-- Nothing is chosen exactly if every candidate is refused, and what is chosen is the
best of its kind, whatever the state, the plan, the window and the coins. -/
theorem choose_best (s : State) (plan : Plan) (window : Nat) (coins : Coins) (used : Nat)
    (candidates : List Candidate) (htempo : ∀ c ∈ candidates, c.track.bpm.isNaN = false) :
    let limits : Limits := ⟨window, 1 < candidates.length⟩
    let result := (s.choose .exact plan window coins used candidates).1
    (result = none ↔ ∀ c ∈ candidates, s.Refuses .exact plan limits c.track) ∧
      ∀ chosen, result = some chosen → s.Prefers plan limits candidates chosen := by
  intro limits result
  have hprefers : ∀ chosen, result = some chosen → s.Prefers plan limits candidates chosen :=
    fun chosen hsome => prefers_of_choose htempo (Prod.ext hsome rfl)
  refine ⟨⟨?_, ?_⟩, hprefers⟩
  · intro hnone c hc
    exact refuses_iff.mpr ((choose_eq_none (Prod.ext hnone rfl)).2 c hc)
  · intro hrefused
    -- A chosen candidate would be among those that are all refused.
    cases hresult : result with
    | none => rfl
    | some chosen =>
        have hchosen := hprefers chosen hresult
        exact absurd (hrefused _ hchosen.offered) hchosen.admitted

end State

namespace Sample

/-- After five minutes of one artist: a song of the same artist that would hit the
target, a shorter one of another artist, and one that is too long. -/
def rivals : List Candidate :=
  [⟨1, .song "b" "X" 300000⟩, ⟨2, .song "c" "Y" 200000⟩, ⟨3, .song "d" "Z" 500000⟩]

/-- The block with its first song. -/
def opened : State := .after .exact plan [.music (.song "a" "X" 300000) false]

end Sample

namespace State

/-- The song that hits the target violates the separation, so the shorter one is chosen. -/
theorem choose_best_sample :
    let result := (Sample.opened.choose .exact Sample.plan 0 Sample.coins 0 Sample.rivals).1
    (∀ c ∈ Sample.rivals, c.track.bpm.isNaN = false) ∧
      result.map (·.candidate.index) = some 2 ∧
      ∀ chosen, result = some chosen →
        Sample.opened.Prefers Sample.plan ⟨0, true⟩ Sample.rivals chosen := by
  intro result
  have htempo : ∀ c ∈ Sample.rivals, c.track.bpm.isNaN = false := by decide
  have hchosen : result.map (·.candidate.index) = some 2 := by decide +kernel
  exact ⟨htempo, hchosen,
    (choose_best Sample.opened Sample.plan 0 Sample.coins 0 Sample.rivals htempo).2⟩

end State

end Rundown
