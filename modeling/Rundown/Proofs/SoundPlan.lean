import Rundown.Proofs.Labels
import Rundown.Proofs.PlanFields
import Rundown.Proofs.Tolerance
import Rundown.Proofs.WholeNumbers

/-!
# Every plan can be carried out

Documents may hold anything under any key, and the plan they describe is sound
all the same: the block lasts a minute to a day, its bounds lie around the
target, breaks that are switched on have a source and a positive rhythm, and
every text that is compared with tracks is a label.  Each function of the
normalization has one lemma here, and the plan is put together from them.

Soundness is a property of a plan alone.  That the plan says what the documents
say is not part of it.
-/

namespace Rundown

open Text

/-! ## Sound parts -/

/-- At least one bound is present. -/
def YearRange.Binds (r : YearRange) : Prop :=
  r.min.isSome ∨ r.max.isSome

/-- At least one bound is present. -/
def TempoRange.Binds (r : TempoRange) : Prop :=
  r.min.isSome ∨ r.max.isSome

/-- Every text is a label, and every range has a bound. -/
structure Criteria.Sound (c : Criteria) : Prop where
  textSearch : ∀ s ∈ c.textSearch, IsLabel s
  genre : ∀ s ∈ c.genre, IsLabel s
  artist : ∀ s ∈ c.artist, IsLabel s
  mood : ∀ s ∈ c.mood, IsLabel s
  language : ∀ s ∈ c.language, IsLabel s
  sourcePlaylists : ∀ s ∈ c.sourcePlaylists, IsLabel s
  tempo : ∀ r ∈ c.tempo, r.Binds
  year : ∀ r ∈ c.year, r.Binds
  era : ∀ r ∈ c.era, r.Binds

/-- The text that a source is looked up by. -/
def BreakSource.text : BreakSource → String
  | .playlist id => id
  | .genre name => name
  | .search text => text

/-- Breaks have a source exactly when they are switched on, and recur. -/
structure Breaks.Sound (b : Breaks) : Prop where
  enabled : b.enabled = true ↔ b.source.isSome = true
  source : ∀ s ∈ b.source, IsLabel s.text
  every : 1 ≤ b.every
  perBreak : 1 ≤ b.perBreak

/-- A share that is given is positive. -/
structure Quota.Sound (q : Quota) : Prop where
  value : IsLabel q.value
  minShare : ∀ x ∈ q.minShare, 0 < x
  maxShare : ∀ x ∈ q.maxShare, 0 < x

/-- A plan by which a sequence can be built.  The bounds of the total are not cut
off at the ends of 64 bits. -/
structure Plan.Sound (plan : Plan) : Prop where
  target : 60000 ≤ plan.target ∧ plan.target ≤ 86400000
  accuracy : 1000 ≤ plan.accuracy ∧ plan.accuracy ≤ 60000
  lowerBound : plan.lowerBound = plan.target - plan.accuracy
  upperBound : plan.upperBound = plan.target + plan.accuracy
  around : 0 ≤ plan.lowerBound ∧ plan.lowerBound < plan.target ∧ plan.target < plan.upperBound
  criteria : plan.criteria.Sound
  breaks : plan.breaks.Sound
  notSeparated : plan.separationEnabled = false → plan.separation = []
  separated : ∀ a gap, (a, gap) ∈ plan.separation →
    a ∈ [Attribute.artist, .title, .album, .label] ∧ 0 ≤ gap
  separatedOnce : (plan.separation.map (·.1)).Nodup
  quotas : ∀ q ∈ plan.quotas, q.Sound
  energyEnabled : plan.energyEnabled = true ↔ plan.energyCurve ≠ []
  energyCurve : ∀ level ∈ plan.energyCurve, level ≤ 100
  fallbacks : ∀ f ∈ plan.fallbacks, IsLabel f.block
  mode : ∀ s ∈ plan.mode, IsLabel s

/-! ## Criteria -/

theorem eraRange?_binds {label : String} {year : Int} {range : YearRange}
    (h : eraRange? label year = some range) : range.Binds := by
  unfold eraRange? at h
  split at h
  case h_8 => cases h
  case h_7 =>
    rw [← Option.some.inj h]
    exact .inr rfl
  all_goals
    rw [← Option.some.inj h]
    exact .inl rfl

namespace Plan

variable {rules sequence : Document} {year : Int}

theorem boundsAt?_binds {key : String} {low high : Option Float}
    (h : boundsAt? rules key = some (low, high)) : low.isSome = true ∨ high.isSome = true := by
  have hbinds := (Option.filter_eq_some_iff.mp h).2
  rwa [Bool.or_eq_true] at hbinds

theorem criteriaOf_sound (rules : Document) (year : Int) : (criteriaOf rules year).Sound where
  textSearch _ h := Document.isLabel_of_label? h
  genre _ h := Document.isLabel_of_label? h
  artist _ h := Document.isLabel_of_label? h
  mood _ h := Document.isLabel_of_label? h
  language _ h := Document.isLabel_of_label? h
  sourcePlaylists := by
    intro s hs
    change s ∈ ((rules.firstOf? ["sourcePlaylists", "source_playlists"]).map Json.labels).getD []
      at hs
    cases hstored : rules.firstOf? ["sourcePlaylists", "source_playlists"] with
    | none => rw [hstored] at hs; cases hs
    | some value =>
        rw [hstored] at hs
        exact Json.isLabel_of_mem_labels hs
  tempo := by
    intro range hrange
    obtain ⟨bounds, hbounds, hsame⟩ := Option.map_eq_some_iff.mp hrange
    rw [← hsame]
    exact boundsAt?_binds hbounds
  year := by
    intro range hrange
    obtain ⟨bounds, hbounds, hsame⟩ := Option.map_eq_some_iff.mp hrange
    rw [← hsame]
    simpa [YearRange.Binds] using boundsAt?_binds hbounds
  era := by
    intro range hrange
    obtain ⟨label, _, hera⟩ := Option.bind_eq_some_iff.mp hrange
    exact eraRange?_binds hera

/-! ## Breaks -/

theorem isLabel_of_labelUnder? {members : Json.Members} {keys : List String} {t : String}
    (h : labelUnder? members keys = some t) : IsLabel t := by
  obtain ⟨key, _, hkey⟩ := List.exists_of_findSome?_eq_some h
  exact Json.isLabel_of_labelAt? hkey

/-- A source that is made from a label is looked up by that label. -/
theorem isLabel_of_made {make : String → BreakSource} (hmake : ∀ t, (make t).text = t)
    {label? : Option String} (hlabel : ∀ t, label? = some t → IsLabel t) {source : BreakSource}
    (h : label?.map make = some source) : IsLabel source.text := by
  obtain ⟨t, ht, rfl⟩ := Option.map_eq_some_iff.mp h
  rw [hmake]
  exact hlabel t ht

theorem isLabel_of_breakSourceOf? {doc : Json.Members} {source : BreakSource}
    (h : breakSourceOf? doc = some source) : IsLabel source.text := by
  have hlabel : ∀ key t, Json.labelAt? doc key = some t → IsLabel t :=
    fun _ _ => Json.isLabel_of_labelAt?
  have hunder : ∀ keys t, labelUnder? doc keys = some t → IsLabel t :=
    fun _ _ => isLabel_of_labelUnder?
  simp only [breakSourceOf?] at h
  split at h
  · exact isLabel_of_made (fun _ => rfl) (hunder _) h
  · exact isLabel_of_made (fun _ => rfl) (hlabel _) h
  · exact isLabel_of_made (fun _ => rfl) (hlabel _) h
  · exact isLabel_of_made (fun _ => rfl) (hlabel _) h
  · exact isLabel_of_made (fun _ => rfl) (hlabel _) h
  · cases h
  · -- Without a type the first source that is filled in counts.
    simp only [Option.orElse_eq_orElse, Option.orElse_eq_or, Option.or_eq_some_iff] at h
    rcases h with hfirst | ⟨_, hsecond | ⟨_, hthird⟩⟩
    · exact isLabel_of_made (fun _ => rfl) (hunder _) hfirst
    · exact isLabel_of_made (fun _ => rfl) (hlabel _) hsecond
    · exact isLabel_of_made (fun _ => rfl) (hlabel _) hthird

theorem countAt_pos (doc : Json.Members) (key : String) {default : Nat} (hdefault : 1 ≤ default) :
    1 ≤ countAt doc key default := by
  unfold countAt
  cases Json.wholeAt? doc key with
  | none => exact hdefault
  | some n =>
      simp only [Option.map_some, Option.getD_some]
      omega

theorem breaks_off_sound : Breaks.off.Sound where
  enabled := by decide
  source := by intro s hs; cases hs
  every := by decide
  perBreak := by decide

theorem breaksOf_sound (rules : Document) : (breaksOf rules).Sound := by
  rw [breaksOf_eq]
  simp only
  split
  · split
    · exact breaks_off_sound
    · rename_i hsource
      exact {
        enabled := by simp
        source := by
          intro s hs
          rw [← Option.some.inj hs]
          exact isLabel_of_breakSourceOf? hsource
        every := countAt_pos _ _ (by decide)
        perBreak := countAt_pos _ _ (by decide) }
  · exact breaks_off_sound

/-! ## Separation -/

theorem gapAt?_nonneg {separation : Json.Members} {a : Attribute} {gap : Int}
    (h : gapAt? separation a = some gap) : 0 ≤ gap := by
  have hminute : (0 : Float) < Decimal.ofInt Duration.minute := by decide +kernel
  obtain ⟨minutes, hminutes, hgap⟩ := Option.map_eq_some_iff.mp h
  have hpos := (Option.filter_eq_some_iff.mp hminutes).2
  rw [decide_eq_true_iff] at hpos
  rw [← hgap]
  exact Binary64.truncateToWord_mul_nonneg hpos hminute

/-- No gap is cut off above what 64 bits hold. -/
theorem gapAt?_le {separation : Json.Members} {a : Attribute} {gap : Int}
    (h : gapAt? separation a = some gap) : gap ≤ Decimal.greatestWord := by
  obtain ⟨minutes, _, hgap⟩ := Option.map_eq_some_iff.mp h
  rw [← hgap]
  exact Decimal.clampWord_le_greatestWord _

/-- A gap of the plan was read from the documents. -/
theorem exists_gapAt?_of_mem {a : Attribute} {gap : Int} (h : (a, gap) ∈ separationOf rules) :
    a ∈ Attribute.separable ∧ ∃ separation, gapAt? separation a = some gap := by
  rw [separationOf_eq] at h
  split at h
  · obtain ⟨b, hb, hpair⟩ := List.mem_filterMap.mp h
    obtain ⟨g, hgap, hsame⟩ := Option.map_eq_some_iff.mp hpair
    cases hsame
    exact ⟨hb, _, hgap⟩
  · cases h

theorem separationOf_separated {a : Attribute} {gap : Int} (h : (a, gap) ∈ separationOf rules) :
    a ∈ Attribute.separable ∧ 0 ≤ gap := by
  obtain ⟨ha, _, hgap⟩ := exists_gapAt?_of_mem h
  exact ⟨ha, gapAt?_nonneg hgap⟩

/-- The keys of values that are paired with them are the keys that have a value. -/
theorem map_fst_filterMap_pair {α β : Type} (value? : α → Option β) (keys : List α) :
    (keys.filterMap fun a => (value? a).map (a, ·)).map (·.1) =
      keys.filter fun a => (value? a).isSome := by
  induction keys with
  | nil => rfl
  | cons a rest ih =>
      cases ha : value? a with
      | none => simp [ha, ih]
      | some b => simp [ha, ih]

theorem separationOf_once (rules : Document) : ((separationOf rules).map (·.1)).Nodup := by
  rw [separationOf_eq]
  split
  · rw [map_fst_filterMap_pair]
    exact List.Nodup.sublist List.filter_sublist (by decide)
  · exact List.nodup_nil

/-! ## Quotas and fallbacks -/

theorem shareAt?_pos {quota : Json.Members} {keys : List String} {share : Float}
    (h : shareAt? quota keys = some share) : 0 < share := by
  have hpos := (Option.filter_eq_some_iff.mp h).2
  rwa [decide_eq_true_iff] at hpos

theorem quotaOf?_sound {entry : Json} {q : Quota} (h : quotaOf? entry = some q) : q.Sound := by
  simp only [quotaOf?, Option.bind_eq_bind, Option.bind_eq_some_iff, Option.some.injEq] at h
  obtain ⟨quota, _, name, _, field, _, value, hvalue, rfl⟩ := h
  exact ⟨Json.isLabel_of_labelAt? hvalue, fun _ h => shareAt?_pos h, fun _ h => shareAt?_pos h⟩

theorem quotasOf_sound {q : Quota} (h : q ∈ quotasOf rules) : q.Sound := by
  unfold quotasOf at h
  split at h
  · obtain ⟨entry, _, hentry⟩ := List.mem_filterMap.mp h
    exact quotaOf?_sound hentry
  · cases h

theorem isLabel_of_mem_fallbacksOf {f : Fallback} (h : f ∈ fallbacksOf rules) :
    IsLabel f.block := by
  unfold fallbacksOf at h
  split at h
  · obtain ⟨entry, _, hentry⟩ := List.mem_filterMap.mp h
    simp only [fallbackOf?, Option.bind_eq_bind, Option.bind_eq_some_iff, Option.some.injEq]
      at hentry
    obtain ⟨fallback, _, block, hblock, rfl⟩ := hentry
    exact isLabel_of_labelUnder? hblock
  · cases h

/-! ## Energy -/

theorem energyLevel_le (x : Float) : energyLevel x ≤ 100 := by
  unfold energyLevel
  split <;> split <;> omega

theorem energyCurveOf_le {level : Nat} (h : level ∈ energyCurveOf sequence) : level ≤ 100 := by
  unfold energyCurveOf at h
  split at h
  · obtain ⟨x, _, rfl⟩ := List.mem_map.mp h
    exact energyLevel_le x
  · cases h

/-! ## The plan -/

/-- The plan of any documents is sound, in any year. -/
theorem sound_ofDocuments (rules sequence : Document) (year : Int) :
    (ofDocuments rules sequence year).Sound := by
  have htarget := target_ofDocuments_mem rules sequence year
  have haccuracy := accuracy_ofDocuments_mem rules sequence year
  have hlower := lowerBound_ofDocuments rules sequence year
  have hupper := upperBound_ofDocuments rules sequence year
  exact {
    target := by omega
    accuracy := by omega
    lowerBound := hlower
    upperBound := hupper
    around := by omega
    criteria := criteriaOf_sound rules year
    breaks := breaksOf_sound rules
    notSeparated := separationOf_of_off
    separated := fun _ _ h => separationOf_separated h
    separatedOnce := separationOf_once rules
    quotas := fun _ h => quotasOf_sound h
    energyEnabled := by
      change (!(energyCurveOf sequence).isEmpty) = true ↔ energyCurveOf sequence ≠ []
      simp
    energyCurve := fun _ h => energyCurveOf_le h
    fallbacks := fun _ h => isLabel_of_mem_fallbacksOf h
    mode := fun _ h => Document.isLabel_of_label? h }

end Plan

end Rundown
