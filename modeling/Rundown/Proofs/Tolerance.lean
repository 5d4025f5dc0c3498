import Rundown.Plan.Normalize

/-!
# The tolerance of a plan

A plan accepts totals between its lower and its upper bound.  Both are held
within 64 bits, which makes no difference to a total that is not negative and
keeps to the upper bound.  The plan of any documents asks for one minute to one
day and accepts at most one minute too little, so its lower bound is positive
unless a block of one minute may be missed by the whole minute.
-/

namespace Rundown

namespace Plan

variable {plan : Plan} {total : Int}

/-- A total within the upper bound misses the target by the accuracy at most. -/
theorem le_target_add_accuracy (hpos : 0 ≤ total) (h : total ≤ plan.upperBound) :
    total ≤ plan.target + plan.accuracy := by
  simp only [upperBound, Decimal.clampWord, Decimal.leastWord, Decimal.greatestWord] at h
  omega

/-- A total that misses the target by the accuracy at most reaches the lower bound. -/
theorem lowerBound_le (hpos : 0 ≤ total) (h : plan.target - plan.accuracy ≤ total) :
    plan.lowerBound ≤ total := by
  simp only [lowerBound, Decimal.clampWord, Decimal.leastWord, Decimal.greatestWord]
  omega

/-! ## Documents -/

theorem targetMinutes_mem (rules : Document) :
    1 ≤ targetMinutes rules ∧ targetMinutes rules ≤ greatestMinutes := by
  unfold targetMinutes
  cases h : (rules.whole? "targetMinutes").filter (0 < ·) with
  | none => exact ⟨by decide, by decide⟩
  | some minutes =>
      have hpos := (Option.filter_eq_some_iff.mp h).2
      rw [decide_eq_true_iff] at hpos
      simp only [Option.getD_some, greatestMinutes]
      omega

theorem accuracySeconds_mem (rules : Document) :
    accuracyRange.1 ≤ accuracySeconds rules ∧ accuracySeconds rules ≤ accuracyRange.2 := by
  simp only [accuracySeconds, accuracyRange]
  omega

/-- The target of documents in milliseconds stays far within 64 bits. -/
theorem target_ofDocuments (rules sequence : Document) (year : Int) :
    (ofDocuments rules sequence year).target = targetMinutes rules * 60000 := by
  have hrange := targetMinutes_mem rules
  simp only [greatestMinutes] at hrange
  change Decimal.clampWord (targetMinutes rules * 60000) = _
  exact Decimal.clampWord_of_natAbs_lt (by omega)

theorem accuracy_ofDocuments (rules sequence : Document) (year : Int) :
    (ofDocuments rules sequence year).accuracy = accuracySeconds rules * 1000 := by
  have hrange := accuracySeconds_mem rules
  simp only [accuracyRange] at hrange
  change Decimal.clampWord (accuracySeconds rules * 1000) = _
  exact Decimal.clampWord_of_natAbs_lt (by omega)

/-- Documents ask for one minute to one day. -/
theorem target_ofDocuments_mem (rules sequence : Document) (year : Int) :
    60000 ≤ (ofDocuments rules sequence year).target ∧
      (ofDocuments rules sequence year).target ≤ 86400000 := by
  have hminutes := targetMinutes_mem rules
  simp only [greatestMinutes] at hminutes
  rw [target_ofDocuments]
  omega

/-- Documents accept that a block is missed by one second to one minute. -/
theorem accuracy_ofDocuments_mem (rules sequence : Document) (year : Int) :
    1000 ≤ (ofDocuments rules sequence year).accuracy ∧
      (ofDocuments rules sequence year).accuracy ≤ 60000 := by
  have hseconds := accuracySeconds_mem rules
  simp only [accuracyRange] at hseconds
  rw [accuracy_ofDocuments]
  omega

theorem lowerBound_ofDocuments (rules sequence : Document) (year : Int) :
    (ofDocuments rules sequence year).lowerBound =
      (ofDocuments rules sequence year).target - (ofDocuments rules sequence year).accuracy := by
  have htarget := target_ofDocuments_mem rules sequence year
  have haccuracy := accuracy_ofDocuments_mem rules sequence year
  exact Decimal.clampWord_of_natAbs_lt (by omega)

theorem upperBound_ofDocuments (rules sequence : Document) (year : Int) :
    (ofDocuments rules sequence year).upperBound =
      (ofDocuments rules sequence year).target + (ofDocuments rules sequence year).accuracy := by
  have htarget := target_ofDocuments_mem rules sequence year
  have haccuracy := accuracy_ofDocuments_mem rules sequence year
  exact Decimal.clampWord_of_natAbs_lt (by omega)

/-- A block of documents may be missed as a whole only if it lasts one minute and
the whole minute is accepted. -/
theorem lowerBound_ofDocuments_nonpos_iff (rules sequence : Document) (year : Int) :
    (ofDocuments rules sequence year).lowerBound ≤ 0 ↔
      (ofDocuments rules sequence year).target = Duration.minute ∧
        (ofDocuments rules sequence year).accuracy = Duration.minute := by
  have hminutes := targetMinutes_mem rules
  have hseconds := accuracySeconds_mem rules
  simp only [greatestMinutes] at hminutes
  simp only [accuracyRange] at hseconds
  simp only [lowerBound, Decimal.clampWord, Decimal.leastWord, Decimal.greatestWord,
    target_ofDocuments, accuracy_ofDocuments, Duration.minute, Duration.second]
  omega

end Plan

end Rundown
