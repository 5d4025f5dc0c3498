import Rundown.Proofs.Labels
import Rundown.Proofs.Overlay
import Rundown.Proofs.PlanFields
import Rundown.Proofs.Tolerance
import Rundown.Proofs.WholeNumbers

/-!
# What was submitted is planned

A form writes documents and a plan is read from documents, by two pieces of code
that know nothing of each other.  Here they meet: the plan of an accepted form
says what the form said, whatever the submitted documents held under the same
keys or under their other names.

Texts, switches, lists, numbers of minutes and seconds, years of 32 bits and
bounds of a tempo arrive unchanged.  A count of breaks does not always: like
every whole number of a document it is read as a number of 64 bits, so it
arrives as the nearest of these, which is the count itself below two to the
power 53.
-/

namespace Rundown

open Text Submission

/-! ## Submitted values -/

namespace FormFields

variable {fields : FormFields} {name t : String}

theorem isLabel_of_value? (h : fields.value? name = some t) : IsLabel t := by
  obtain ⟨⟨key, value⟩, _, hpair⟩ := List.exists_of_findSome?_eq_some h
  simp only at hpair
  split at hpair
  · exact .of_nonBlank? hpair
  · cases hpair

theorem isLabel_of_mem_values (h : t ∈ fields.values name) : IsLabel t := by
  obtain ⟨⟨key, value⟩, _, hpair⟩ := List.mem_filterMap.mp h
  simp only at hpair
  split at hpair
  · exact .of_nonBlank? hpair
  · cases hpair

theorem isWord_of_whole? {n : Int} (h : fields.whole? name = .ok (some n)) :
    isWord n = true := by
  unfold whole? at h
  split at h
  · cases h
  · split at h
    · rename_i hread
      rw [← Option.some.inj (Except.ok.inj h)]
      exact (Option.filter_eq_some_iff.mp hread).2
    · cases h

end FormFields

namespace Submission

variable {fields : FormFields} {name : String}

/-- An accepted length is the submitted one, and in range. -/
theorem accepted?_targetMinutes? {m : Int} (h : fields.whole? "targetMinutes" = .ok (some m))
    (haccepted : ∃ minutes, targetMinutes? fields = .ok minutes) :
    accepted? (targetMinutes? fields) = some m ∧ 1 ≤ m ∧ m ≤ 1440 := by
  obtain ⟨minutes, hminutes⟩ := haccepted
  rw [hminutes]
  unfold targetMinutes? at hminutes
  obtain ⟨value, hvalue, hjudged⟩ := bind_eq_ok.mp hminutes
  rw [h] at hvalue
  rw [← Except.ok.inj hvalue] at hjudged
  simp only at hjudged
  split at hjudged
  · rename_i hrange
    exact ⟨(Except.ok.inj hjudged).symm, hrange⟩
  · cases hjudged

/-- An accepted gap is the submitted one. -/
theorem accepted?_gap? {a : Attribute} {minutes : Float}
    (h : fields.number? ("separation_" ++ a.name) = .ok (some minutes))
    (haccepted : ∃ gap, gap? fields a = .ok gap) :
    accepted? (gap? fields a) = some minutes := by
  obtain ⟨gap, hgap⟩ := haccepted
  rw [hgap]
  unfold gap? at hgap
  obtain ⟨value, hvalue, hjudged⟩ := bind_eq_ok.mp hgap
  rw [h] at hvalue
  rw [← Except.ok.inj hvalue] at hjudged
  simp only at hjudged
  split at hjudged
  · cases hjudged
  · exact (Except.ok.inj hjudged).symm

/-- An accepted count is the submitted one, and at least one. -/
theorem accepted?_count? {n : Int} (h : fields.whole? name = .ok (some n))
    (haccepted : ∃ count, count? fields name = .ok count) :
    accepted? (count? fields name) = some n ∧ 1 ≤ n := by
  obtain ⟨count, hcount⟩ := haccepted
  rw [hcount]
  unfold count? at hcount
  obtain ⟨value, hvalue, hjudged⟩ := bind_eq_ok.mp hcount
  rw [h] at hvalue
  rw [← Except.ok.inj hvalue] at hjudged
  simp only at hjudged
  split at hjudged
  · cases hjudged
  · exact ⟨(Except.ok.inj hjudged).symm, by omega⟩

/-- Every level of a curve is one of the parts, and from 0 to 100. -/
theorem levels_of_mapM {parts : List String} {levels : List Int}
    (h : parts.mapM energyLevel = .ok levels) :
    levels.map some = parts.map readWord? ∧ ∀ n ∈ levels, 0 ≤ n ∧ n ≤ 100 := by
  induction parts generalizing levels with
  | nil =>
      rw [← Except.ok.inj h]
      exact ⟨rfl, fun n hn => absurd hn List.not_mem_nil⟩
  | cons part rest ih =>
      rw [List.mapM_cons] at h
      obtain ⟨level, hlevel, h⟩ := bind_eq_ok.mp h
      obtain ⟨later, hlater, h⟩ := bind_eq_ok.mp h
      obtain ⟨hread, hrange⟩ := ih hlater
      rw [← Except.ok.inj h]
      unfold energyLevel at hlevel
      split at hlevel
      · rename_i n hn
        obtain ⟨hpart, hbounds⟩ := Option.filter_eq_some_iff.mp hn
        rw [Bool.and_eq_true, decide_eq_true_iff, decide_eq_true_iff] at hbounds
        rw [← Except.ok.inj hlevel]
        constructor
        · rw [List.map_cons, List.map_cons, hread, hpart]
        · intro m hm
          rcases List.mem_cons.mp hm with rfl | hm
          · exact hbounds
          · exact hrange m hm
      · cases hlevel

theorem accepted?_energyCurve? {text : String} (h : fields.value? "energyCurve" = some text)
    (haccepted : ∃ curve, energyCurve? fields = .ok curve) :
    ∃ levels : List Int,
      accepted? (energyCurve? fields) = some (.arr (levels.map Json.int)) ∧
        levels.map some = (commaParts text).map readWord? ∧ ∀ n ∈ levels, 0 ≤ n ∧ n ≤ 100 := by
  obtain ⟨curve, hcurve⟩ := haccepted
  rw [hcurve]
  unfold energyCurve? at hcurve
  rw [h] at hcurve
  obtain ⟨levels, hlevels, hstored⟩ := bind_eq_ok.mp hcurve
  exact ⟨levels, (Except.ok.inj hstored).symm, levels_of_mapM hlevels⟩

/-! ## Stored values -/

theorem bounds_of_rangeOf? {low high : Option Json} {range : Json}
    (h : rangeOf? low high = some range) :
    range.bounds = ((low.bind Json.number?).filter (· != 0),
      (high.bind Json.number?).filter (· != 0)) := by
  cases low with
  | none =>
      cases high with
      | none => cases h
      | some v => rw [← Option.some.inj h]; rfl
  | some u =>
      cases high with
      | none => rw [← Option.some.inj h]; rfl
      | some v => rw [← Option.some.inj h]; rfl

theorem rangeOf?_isSome {low high : Option Json} (h : low.isSome ∨ high.isSome) :
    ∃ members, rangeOf? low high = some (.obj members) := by
  cases low with
  | none =>
      cases high with
      | none => simp at h
      | some v => exact ⟨_, rfl⟩
  | some u => cases high <;> exact ⟨_, rfl⟩

end Submission

theorem Document.firstOf?_of_get? {d : Document} {key : String} {value : Json}
    (h : d.get? key = some value) (hvalue : value ≠ .null) (others : List String) :
    d.firstOf? (key :: others) = some value := by
  change Json.lookup? d.fields key = some value at h
  unfold Document.firstOf? Json.firstOf?
  rw [List.findSome?_cons, h]
  cases value with
  | null => exact absurd rfl hvalue
  | _ => rfl

namespace Plan

theorem energyLevel_ofInt {n : Int} (hlow : 0 ≤ n) (hhigh : n ≤ 100) :
    (energyLevel (Decimal.ofInt n) : Int) = n := by
  by_cases hn : n = 0
  · rw [hn]
    decide +kernel
  · obtain ⟨s, j, hm, hparts, hsign⟩ := Binary64.parts_ofInt hn (by omega)
    have hplus : Binary64.isMinus s = false := by
      rw [hsign]
      exact decide_eq_false (by omega)
    unfold energyLevel
    rw [Binary64.of?_eq, hparts]
    simp only [Binary64.exactValue?, hplus, Bool.false_eq_true, if_false,
      Binary64.roundHalfUp_whole]
    omega

/-- A count that is stored as a number is read as the nearest number of 64 bits. -/
theorem countAt_of_lookup? {doc : Json.Members} {key : String} {default : Nat} {n : Int}
    (h : Json.lookup? doc key = some (.int n)) (hword : isWord n = true) (hpos : 1 ≤ n) :
    (countAt doc key default : Int) = Decimal.truncateToWord (Decimal.ofInt n) := by
  -- The nearest number is positive too, so the least count of one does not show.
  have hclamp : max 0 (min 1 (Decimal.truncateToWord (Decimal.ofInt n))) = max 0 (min 1 n) :=
    Binary64.clamp_truncateToWord_ofInt hword (by decide) (by decide)
  have hread : Json.wholeAt? doc key = some (Decimal.truncateToWord (Decimal.ofInt n)) := by
    rw [Json.wholeAt?, h]
    rfl
  rw [countAt, hread, Option.map_some, Option.getD_some]
  omega

end Plan

/-! ## What an accepted form has written -/

namespace Submission.Written

variable {fields : FormFields} {rules sequence : Document} {s : Submission}
  (h : Written fields rules sequence s)

include h

theorem get?_of_filter {key : String} {value : Json}
    (hwrite : (key, some value) ∈ filterWrites fields) : s.rules.get? key = some value :=
  h.filters _ hwrite

theorem label?_of_text {key t : String} (hkey : key ∈ textKeys)
    (ht : fields.value? key = some t) : s.rules.label? key = some t := by
  have hwrite : (key, some (.str t)) ∈ filterWrites fields := by
    apply List.mem_append_left
    apply List.mem_append_left
    rw [← Option.map_some, ← ht]
    exact mem_writesTo hkey
  change (s.rules.get? key).bind Json.label? = some t
  rw [h.get?_of_filter hwrite, Option.bind_some]
  exact Json.label?_str_of_isLabel (FormFields.isLabel_of_value? ht)

theorem get?_of_flag {key : String} {b : Bool} (hkey : key ∈ flagKeys)
    (hb : fields.flag? key = some b) : s.rules.get? key = some (.bool b) := by
  apply h.get?_of_filter
  apply List.mem_append_right
  rw [← Option.map_some, ← hb]
  exact mem_writesTo hkey

theorem truth_of_flag {key : String} {b : Bool} (hkey : key ∈ flagKeys)
    (hb : fields.flag? key = some b) : s.rules.truth key = b := by
  change ((s.rules.get? key).map Json.truth).getD false = b
  rw [h.get?_of_flag hkey hb]
  rfl

theorem get?_of_value {key : String} {value : Json}
    (hwrite : (key, some value) ∈ valueWrites fields) : s.rules.get? key = some value :=
  h.get?_of_filter (List.mem_append_left _ (List.mem_append_right _ hwrite))

theorem whole?_of_value {key : String} {n : Int}
    (hwrite : (key, some (.int n)) ∈ valueWrites fields) :
    s.rules.whole? key = some (Decimal.truncateToWord (Decimal.ofInt n)) := by
  change (s.rules.get? key).bind Json.whole? = _
  rw [h.get?_of_value hwrite]
  rfl

theorem lookup?_of_break {key : String} {value : Json}
    (hwrite : (key, some value) ∈ breakWrites fields) :
    Json.lookup? (membersAt s.rules "interstitials") key = some value :=
  h.breaks _ hwrite

theorem labelAt?_of_source {name key t : String} (hkey : (name, key) ∈ sourceKeys)
    (ht : fields.value? name = some t) :
    Json.labelAt? (membersAt s.rules "interstitials") key = some t := by
  have hwrite : (key, some (.str t)) ∈ breakWrites fields := by
    apply List.mem_append_left
    apply List.mem_cons_of_mem
    exact List.mem_map.mpr ⟨(name, key), hkey, by rw [ht]; rfl⟩
  rw [Json.labelAt?, h.lookup?_of_break hwrite, Option.bind_some]
  exact Json.label?_str_of_isLabel (FormFields.isLabel_of_value? ht)

theorem lookup?_of_count {name key : String} {n : Int} (hkey : (name, key) ∈ countKeys)
    (hn : fields.whole? name = .ok (some n)) :
    Json.lookup? (membersAt s.rules "interstitials") key = some (.int n) ∧ 1 ≤ n := by
  obtain ⟨haccepted, hpos⟩ := accepted?_count? hn (h.counts (name, key) hkey)
  refine ⟨h.lookup?_of_break ?_, hpos⟩
  apply List.mem_append_right
  exact List.mem_map.mpr ⟨(name, key), hkey, by rw [haccepted]; rfl⟩

theorem lookup?_of_gap {a : Attribute} {minutes : Float} (ha : a ∈ Attribute.separable)
    (hminutes : fields.number? ("separation_" ++ a.name) = .ok (some minutes)) :
    Json.lookup? (membersAt s.rules "separation") a.name = some (.real minutes) := by
  have haccepted := accepted?_gap? hminutes (h.gaps a ha)
  exact h.separation (a.name, some (.real minutes))
    (List.mem_map.mpr ⟨a, ha, by rw [haccepted]; rfl⟩)

end Submission.Written

/-! ## The plan of an accepted form -/

/-- The source that a form names together with its type, in any case of letters. -/
def FormFields.source? (fields : FormFields) : Option BreakSource :=
  match (fields.value? "ads_source_type").map lowerAscii with
  | some "playlist" => (fields.value? "ads_playlist").map .playlist
  | some "genre" => (fields.value? "ads_genre").map .genre
  | some "query" => (fields.value? "ads_query").map .search
  | _ => none

/-- A year of 32 bits. -/
def IsHalfWord (n : Int) : Prop :=
  -2147483648 ≤ n ∧ n ≤ 2147483647

/-- A plan says what a form submitted, field by field; `count` is what becomes of a
count of breaks.  Features with a switch of their own are read from the
documents `s` of the form when they are switched on. -/
structure Carried (count : Int → Int) (fields : FormFields) (year : Int) (s : Submission)
    (plan : Plan) : Prop where
  target : ∀ m, fields.whole? "targetMinutes" = .ok (some m) → plan.target = 60000 * m
  accuracy : ∀ n, fields.whole? "durationAccuracy" = .ok (some n) →
    plan.accuracy = 1000 * max 1 (min 60 n)
  genre : ∀ t, fields.value? "genre" = some t → plan.criteria.genre = some t
  artist : ∀ t, fields.value? "artist" = some t → plan.criteria.artist = some t
  mood : ∀ t, fields.value? "mood" = some t → plan.criteria.mood = some t
  language : ∀ t, fields.value? "language" = some t → plan.criteria.language = some t
  textSearch : ∀ t, fields.value? "text_search" = some t → plan.criteria.textSearch = some t
  mode : ∀ t, fields.value? "mode" = some t → plan.mode = some t
  era : ∀ t, fields.value? "era" = some t → plan.criteria.era = eraRange? t year
  tempo : ∀ low high, fields.number? "bpmMin" = .ok low → fields.number? "bpmMax" = .ok high →
    low.isSome ∨ high.isSome →
      plan.criteria.tempo.bind (·.min) = low.filter (· != 0) ∧
        plan.criteria.tempo.bind (·.max) = high.filter (· != 0)
  earliest : ∀ low high, fields.whole? "yearMin" = .ok low → fields.whole? "yearMax" = .ok high →
    low.isSome ∨ high.isSome → (∀ y ∈ low, IsHalfWord y) →
      plan.criteria.year.bind (·.min) = low.filter (· ≠ 0)
  latest : ∀ low high, fields.whole? "yearMin" = .ok low → fields.whole? "yearMax" = .ok high →
    low.isSome ∨ high.isSome → (∀ y ∈ high, IsHalfWord y) →
      plan.criteria.year.bind (·.max) = high.filter (· ≠ 0)
  sourcePlaylists : fields.values "sourcePlaylists" ≠ [] →
    plan.criteria.sourcePlaylists = fields.values "sourcePlaylists"
  excludeExplicit : ∀ b, fields.flag? "excludeExplicit" = some b →
    plan.criteria.excludeExplicit = b
  includePublicArchive : ∀ b, fields.flag? "includePublicArchive" = some b →
    plan.criteria.includePublicArchive = b
  allowRepeats : ∀ b, fields.flag? "allowRepeats" = some b → plan.allowRepeats = b
  quotas : ∀ b, fields.flag? "quotasEnabled" = some b →
    plan.quotas = if b then (s.rules.items "quotas").filterMap Plan.quotaOf? else []
  fallbacks : ∀ b, fields.flag? "fallbacksEnabled" = some b →
    plan.fallbacks = if b then (s.rules.items "fallbacks").filterMap Plan.fallbackOf? else []
  /-- Boosters are kept for other readers of the rules and have no part in a plan. -/
  boosters : ∀ b, fields.flag? "boostersEnabled" = some b → s.rules.truth "boostersEnabled" = b
  separationEnabled : ∀ b, fields.flag? "separationEnabled" = some b → plan.separationEnabled = b
  notSeparated : plan.separationEnabled = false → plan.separation = []
  gaps : plan.separationEnabled = true → ∀ a ∈ Attribute.separable, ∀ minutes,
    fields.number? ("separation_" ++ a.name) = .ok (some minutes) → ∀ gap,
      (a, gap) ∈ plan.separation ↔
        0 < minutes ∧ gap = Decimal.truncateToWord (minutes * Decimal.ofInt 60000)
  noBreaks : fields.flag? "ads_enabled" = some false → plan.breaks = Breaks.off
  source : fields.flag? "ads_enabled" = some true → ∀ source, fields.source? = some source →
    plan.breaks.enabled = true ∧ plan.breaks.source = some source
  every : plan.breaks.enabled = true → ∀ n, fields.whole? "ads_every" = .ok (some n) →
    plan.breaks.every = count n
  perBreak : plan.breaks.enabled = true → ∀ n, fields.whole? "ads_per_break" = .ok (some n) →
    plan.breaks.perBreak = count n
  energy : ∀ b, fields.flag? "energyEnabled" = some b →
    plan.energyEnabled = !plan.energyCurve.isEmpty ∧
      plan.energyCurve =
        if b then ((s.sequence.items "energyCurve").filterMap Json.number?).map Plan.energyLevel
        else []
  energyCurve : s.sequence.truth "energyEnabled" = true → ∀ text,
    fields.value? "energyCurve" = some text →
      plan.energyCurve.map (fun level : Nat => some (level : Int)) = (commaParts text).map readWord?

/-- What is read of a whole number in a document. -/
def nearestWhole (n : Int) : Int :=
  Decimal.truncateToWord (Decimal.ofInt n)

/-- A stored year of 32 bits is the bound itself, and year zero is none. -/
theorem yearBound_of_halfWord {bound : Option Int} (h : ∀ y ∈ bound, IsHalfWord y) :
    (((bound.map Json.int).bind Json.number?).filter (· != 0)).map Decimal.truncateToHalfWord =
      bound.filter (· ≠ 0) := by
  cases bound with
  | none => rfl
  | some y =>
      obtain ⟨hlow, hhigh⟩ := h y rfl
      change ((some (Decimal.ofInt y)).filter (· != 0)).map _ = _
      rw [Option.filter_some, Option.filter_some, Binary64.ofInt_bne_zero (by omega)]
      split
      · rw [Option.map_some, Binary64.truncateToHalfWord_ofInt hlow hhigh]
      · rfl

namespace Submission.Written

open Plan

variable {fields : FormFields} {rules sequence : Document} {s : Submission} (year : Int)
  (h : Written fields rules sequence s)

include h

theorem target {m : Int} (hm : fields.whole? "targetMinutes" = .ok (some m)) :
    (ofDocuments s.rules s.sequence year).target = 60000 * m := by
  obtain ⟨haccepted, hlow, hhigh⟩ := accepted?_targetMinutes? hm h.minutes
  have hread : s.rules.whole? "targetMinutes" = some m := by
    rw [← Binary64.truncateToWord_ofInt (n := m) (by omega)]
    apply h.whole?_of_value
    rw [valueWrites, haccepted]
    exact List.mem_cons_self
  have hpositive : decide (0 < m) = true := decide_eq_true (by omega)
  rw [target_ofDocuments, targetMinutes, hread, Option.filter_some, if_pos hpositive,
    Option.getD_some, greatestMinutes]
  omega

theorem accuracy {n : Int} (hn : fields.whole? "durationAccuracy" = .ok (some n)) :
    (ofDocuments s.rules s.sequence year).accuracy = 1000 * max 1 (min 60 n) := by
  have hread : s.rules.whole? "durationAccuracy" = some (nearestWhole n) := by
    apply h.whole?_of_value
    rw [valueWrites, hn]
    exact List.mem_cons_of_mem _ List.mem_cons_self
  have hclamp : max 1 (min 60 (nearestWhole n)) = max 1 (min 60 n) :=
    Binary64.clamp_truncateToWord_ofInt (FormFields.isWord_of_whole? hn) (by decide) (by decide)
  rw [accuracy_ofDocuments, accuracySeconds, hread, Option.getD_some, accuracyRange, hclamp]
  omega

/-- A range with a submitted bound is stored, and its bounds are the submitted ones. -/
theorem exists_range {key : String} {low high : Option Json}
    (hwrite : (key, rangeOf? low high) ∈ valueWrites fields)
    (hsubmitted : low.isSome ∨ high.isSome) :
    ∃ range, s.rules.firstOf? [key] = some range ∧
      range.bounds = ((low.bind Json.number?).filter (· != 0),
        (high.bind Json.number?).filter (· != 0)) := by
  obtain ⟨members, hrange⟩ := rangeOf?_isSome hsubmitted
  have hbounds := bounds_of_rangeOf? hrange
  rw [hrange] at hwrite
  exact ⟨.obj members, Document.firstOf?_of_get? (h.get?_of_value hwrite) (by simp) [], hbounds⟩

theorem tempo {low high : Option Float} (hlow : fields.number? "bpmMin" = .ok low)
    (hhigh : fields.number? "bpmMax" = .ok high) (hsubmitted : low.isSome ∨ high.isSome) :
    (ofDocuments s.rules s.sequence year).criteria.tempo.bind (·.min) = low.filter (· != 0) ∧
      (ofDocuments s.rules s.sequence year).criteria.tempo.bind (·.max) =
        high.filter (· != 0) := by
  have hwrite : ("bpmRange", rangeOf? (low.map Json.real) (high.map Json.real)) ∈
      valueWrites fields := by
    rw [valueWrites, hlow, hhigh]
    simp [accepted?]
  have hnumber : ∀ bound : Option Float, (bound.map Json.real).bind Json.number? = bound := by
    intro bound
    cases bound <;> rfl
  obtain ⟨range, hrange, hbounds⟩ := h.exists_range hwrite (by simpa using hsubmitted)
  rw [hnumber, hnumber] at hbounds
  have hplanned := tempo_ofDocuments s.sequence year hrange
  rwa [hbounds] at hplanned

/-- The years of a plan are the stored bounds, cut off to 32 bits. -/
theorem years {low high : Option Int} (hlow : fields.whole? "yearMin" = .ok low)
    (hhigh : fields.whole? "yearMax" = .ok high) (hsubmitted : low.isSome ∨ high.isSome) :
    (ofDocuments s.rules s.sequence year).criteria.year.bind (·.min) =
        (((low.map Json.int).bind Json.number?).filter (· != 0)).map Decimal.truncateToHalfWord ∧
      (ofDocuments s.rules s.sequence year).criteria.year.bind (·.max) =
        (((high.map Json.int).bind Json.number?).filter (· != 0)).map
          Decimal.truncateToHalfWord := by
  have hwrite : ("yearRange", rangeOf? (low.map Json.int) (high.map Json.int)) ∈
      valueWrites fields := by
    rw [valueWrites, hlow, hhigh]
    simp [accepted?]
  obtain ⟨range, hrange, hbounds⟩ := h.exists_range hwrite (by simpa using hsubmitted)
  have hplanned := years_ofDocuments s.sequence year hrange
  rwa [hbounds] at hplanned

theorem sourcePlaylists (hsubmitted : fields.values "sourcePlaylists" ≠ []) :
    (ofDocuments s.rules s.sequence year).criteria.sourcePlaylists =
      fields.values "sourcePlaylists" := by
  have hwrite : ("sourcePlaylists",
      some (.arr ((fields.values "sourcePlaylists").map Json.str))) ∈ valueWrites fields := by
    have hnonempty : (fields.values "sourcePlaylists").isEmpty ≠ true := by simpa using hsubmitted
    rw [valueWrites, playlists?, if_neg hnonempty]
    simp
  have hfirst := Document.firstOf?_of_get? (h.get?_of_value hwrite) (by simp)
    ["source_playlists"]
  change ((s.rules.firstOf? _).map Json.labels).getD [] = _
  rw [hfirst]
  exact Json.labels_arr_of_isLabel fun t ht => FormFields.isLabel_of_mem_values ht

theorem includePublicArchive {b : Bool} (hb : fields.flag? "includePublicArchive" = some b) :
    (ofDocuments s.rules s.sequence year).criteria.includePublicArchive = b := by
  have hfirst := Document.firstOf?_of_get? (h.get?_of_flag (by decide) hb) (by simp)
    ["include_archive"]
  change ((s.rules.firstOf? _).map Json.truth).getD false = b
  rw [hfirst]
  rfl

theorem gaps_iff {a : Attribute} (hon : s.rules.truth "separationEnabled" = true)
    (ha : a ∈ Attribute.separable) {minutes : Float}
    (hminutes : fields.number? ("separation_" ++ a.name) = .ok (some minutes)) {gap : Int} :
    (a, gap) ∈ separationOf s.rules ↔
      0 < minutes ∧ gap = Decimal.truncateToWord (minutes * Decimal.ofInt 60000) := by
  have hstored : Json.lookup? ((s.rules.members? "separation").getD []) a.name =
      some (.real minutes) := h.lookup?_of_gap ha hminutes
  rw [mem_separationOf hon ha, gapAt?, hstored]
  change ((some minutes).filter (0 < ·)).map _ = some gap ↔ _
  rw [Option.filter_some]
  split
  · rename_i hpositive
    rw [decide_eq_true_iff] at hpositive
    rw [Option.map_some, Option.some.injEq]
    exact ⟨fun hgap => ⟨hpositive, hgap.symm⟩, fun hgap => hgap.2.symm⟩
  · rename_i hnot
    rw [decide_eq_true_iff] at hnot
    constructor
    · intro hgap
      cases hgap
    · rintro ⟨hpositive, _⟩
      exact absurd hpositive hnot

/-! ## Breaks -/

theorem truthAt_enabled {b : Bool} (hb : fields.flag? "ads_enabled" = some b) :
    Json.truthAt ((s.rules.members? "interstitials").getD []) "enabled" = b := by
  have hstored : Json.lookup? ((s.rules.members? "interstitials").getD []) "enabled" =
      some (.bool b) :=
    h.lookup?_of_break (List.mem_append_left _ (by rw [hb]; exact List.mem_cons_self))
  rw [Json.truthAt, hstored]
  rfl

theorem breakSourceOf?_eq {source : BreakSource} (hsource : fields.source? = some source) :
    breakSourceOf? ((s.rules.members? "interstitials").getD []) = some source := by
  have hlabel : ∀ {name key t}, (name, key) ∈ sourceKeys → fields.value? name = some t →
      Json.labelAt? ((s.rules.members? "interstitials").getD []) key = some t :=
    h.labelAt?_of_source
  -- The members matter only through the labels that were submitted.
  generalize (s.rules.members? "interstitials").getD [] = doc at hlabel
  unfold FormFields.source? at hsource
  obtain ⟨kind, hkind⟩ : ∃ kind, fields.value? "ads_source_type" = some kind := by
    cases hkind : fields.value? "ads_source_type" with
    | none => rw [hkind] at hsource; cases hsource
    | some kind => exact ⟨kind, rfl⟩
  have htype : labelUnder? doc ["sourceType", "source_type"] = some kind := by
    rw [labelUnder?, List.findSome?_cons, hlabel (by decide) hkind]
  rw [hkind, Option.map_some] at hsource
  unfold breakSourceOf?
  simp only [htype, Option.map_some]
  split at hsource
  · rename_i hplaylist
    obtain ⟨t, ht, rfl⟩ := Option.map_eq_some_iff.mp hsource
    rw [Option.some.inj hplaylist, labelUnder?, List.findSome?_cons, hlabel (by decide) ht]
    rfl
  · rename_i hgenre
    obtain ⟨t, ht, rfl⟩ := Option.map_eq_some_iff.mp hsource
    have hstored : Json.labelAt? doc "genre" = some t := hlabel (by decide) ht
    rw [Option.some.inj hgenre, hstored]
    rfl
  · rename_i hquery
    obtain ⟨t, ht, rfl⟩ := Option.map_eq_some_iff.mp hsource
    have hstored : Json.labelAt? doc "query" = some t := hlabel (by decide) ht
    rw [Option.some.inj hquery, hstored]
    rfl
  · cases hsource

theorem source {source : BreakSource} (hon : fields.flag? "ads_enabled" = some true)
    (hsource : fields.source? = some source) :
    (breaksOf s.rules).enabled = true ∧ (breaksOf s.rules).source = some source := by
  rw [breaksOf_eq]
  simp only [h.truthAt_enabled hon, h.breakSourceOf?_eq hsource, if_true, and_self]

theorem noBreaks (hoff : fields.flag? "ads_enabled" = some false) :
    breaksOf s.rules = Breaks.off := by
  rw [breaksOf_eq]
  simp only [h.truthAt_enabled hoff, Bool.false_eq_true, if_false]

theorem countAt_of_count {name key : String} {n : Int} (hkey : (name, key) ∈ countKeys)
    (hn : fields.whole? name = .ok (some n)) (default : Nat) :
    (countAt ((s.rules.members? "interstitials").getD []) key default : Int) = nearestWhole n := by
  obtain ⟨hstored, hpos⟩ := h.lookup?_of_count hkey hn
  exact countAt_of_lookup? hstored (FormFields.isWord_of_whole? hn) hpos

/-! ## The sequence -/

theorem sequence_get? {key : String} {value : Json}
    (hwrite : (key, some value) ∈ sequenceWrites fields) : s.sequence.get? key = some value :=
  h.sequence _ hwrite

theorem mode {t : String} (ht : fields.value? "mode" = some t) :
    s.sequence.label? "mode" = some t := by
  have hstored : s.sequence.get? "mode" = some (.str t) := by
    apply h.sequence_get?
    rw [← Option.map_some, ← ht]
    exact List.mem_append_left _ (List.mem_append_left _ (mem_writesTo (List.mem_singleton_self _)))
  change (s.sequence.get? "mode").bind Json.label? = some t
  rw [hstored, Option.bind_some]
  exact Json.label?_str_of_isLabel (FormFields.isLabel_of_value? ht)

theorem energyEnabled {b : Bool} (hb : fields.flag? "energyEnabled" = some b) :
    s.sequence.truth "energyEnabled" = b := by
  have hstored : s.sequence.get? "energyEnabled" = some (.bool b) := by
    apply h.sequence_get?
    rw [← Option.map_some, ← hb]
    exact List.mem_append_left _ (List.mem_append_right _ (mem_writesTo (List.mem_singleton_self _)))
  change ((s.sequence.get? "energyEnabled").map Json.truth).getD false = b
  rw [hstored]
  rfl

theorem energyCurve (hon : s.sequence.truth "energyEnabled" = true) {text : String}
    (htext : fields.value? "energyCurve" = some text) :
    (energyCurveOf s.sequence).map (fun level : Nat => some (level : Int)) =
      (commaParts text).map readWord? := by
  obtain ⟨levels, haccepted, hparts, hrange⟩ := accepted?_energyCurve? htext h.curve
  have hstored : s.sequence.get? "energyCurve" = some (.arr (levels.map Json.int)) := by
    apply h.sequence_get?
    rw [sequenceWrites, haccepted]
    exact List.mem_append_right _ List.mem_cons_self
  have hitems : s.sequence.items "energyCurve" = levels.map Json.int := by
    change ((s.sequence.get? "energyCurve").bind Json.items?).getD [] = _
    rw [hstored]
    rfl
  have hnumbers : (levels.map Json.int).filterMap Json.number? = levels.map Decimal.ofInt := by
    rw [List.filterMap_map, ← List.filterMap_eq_map]
    rfl
  rw [energyCurveOf, if_pos hon, hitems, hnumbers, ← hparts, List.map_map, List.map_map]
  apply List.map_congr_left
  intro n hn
  exact congrArg some (energyLevel_ofInt (hrange n hn).1 (hrange n hn).2)

/-- The plan of the written documents says what was submitted. -/
theorem carried : Carried nearestWhole fields year s (ofDocuments s.rules s.sequence year) where
  target _ hm := h.target year hm
  accuracy _ hn := h.accuracy year hn
  genre _ ht := h.label?_of_text (by decide) ht
  artist _ ht := h.label?_of_text (by decide) ht
  mood _ ht := h.label?_of_text (by decide) ht
  language _ ht := h.label?_of_text (by decide) ht
  textSearch _ ht := h.label?_of_text (by decide) ht
  mode _ ht := h.mode ht
  era _ ht := era_ofDocuments s.sequence year (h.label?_of_text (by decide) ht)
  tempo _ _ hlow hhigh hsubmitted := h.tempo year hlow hhigh hsubmitted
  earliest _ _ hlow hhigh hsubmitted hyear :=
    (h.years year hlow hhigh hsubmitted).1.trans (yearBound_of_halfWord hyear)
  latest _ _ hlow hhigh hsubmitted hyear :=
    (h.years year hlow hhigh hsubmitted).2.trans (yearBound_of_halfWord hyear)
  sourcePlaylists hsubmitted := h.sourcePlaylists year hsubmitted
  excludeExplicit _ hb := h.truth_of_flag (by decide) hb
  includePublicArchive _ hb := h.includePublicArchive year hb
  allowRepeats _ hb := h.truth_of_flag (by decide) hb
  quotas b hb := by
    change quotasOf s.rules = _
    rw [quotasOf, h.truth_of_flag (by decide) hb]
  fallbacks b hb := by
    change fallbacksOf s.rules = _
    rw [fallbacksOf, h.truth_of_flag (by decide) hb]
  boosters _ hb := h.truth_of_flag (by decide) hb
  separationEnabled b hb := by
    change ((s.rules.get? "separationEnabled").map Json.truth).getD false = b
    rw [h.separationEnabled, hb]
    rfl
  notSeparated hoff := separationOf_of_off hoff
  gaps hon _ ha _ hminutes _ := h.gaps_iff hon ha hminutes
  noBreaks hoff := h.noBreaks hoff
  source hon _ hsource := h.source hon hsource
  every henabled n hn := by
    change ((breaksOf s.rules).every : Int) = _
    rw [(rhythm_of_enabled henabled).1]
    exact h.countAt_of_count (show ("ads_every", "every") ∈ countKeys by decide) hn _
  perBreak henabled n hn := by
    change ((breaksOf s.rules).perBreak : Int) = _
    rw [(rhythm_of_enabled henabled).2]
    exact h.countAt_of_count (show ("ads_per_break", "perBreak") ∈ countKeys by decide) hn _
  energy b hb := by
    refine ⟨rfl, ?_⟩
    change energyCurveOf s.sequence = _
    rw [energyCurveOf, h.energyEnabled hb]
  energyCurve hon _ htext := h.energyCurve hon htext

end Submission.Written

namespace Submission

/-- The plan of every accepted form says what was submitted, in any year, and a count
below two to the power 53 is planned as it is. -/
theorem carried_of_read {fields : FormFields} {s : Submission} (h : read fields = .ok s)
    (year : Int) :
    Carried nearestWhole fields year s (Plan.ofDocuments s.rules s.sequence year) ∧
      ∀ n : Int, 0 ≤ n → n < 2 ^ 53 → nearestWhole n = n := by
  obtain ⟨rules, sequence, _, _, hwritten⟩ := written_of_read h
  refine ⟨hwritten.carried year, fun n hlow hhigh => ?_⟩
  exact Binary64.truncateToWord_ofInt (by omega)

/-- A form over a document that held something else under the same and under older
names. -/
def overlaidForm : FormFields :=
  [("name", "Evening"), ("rules", "\x7b\"source_playlists\":\"a,b\",\"genre\":\"Rock\"\x7d"),
    ("genre", " Jazz "), ("targetMinutes", "90"), ("yearMin", "0"), ("yearMax", "1999"),
    ("sourcePlaylists[]", "p1"), ("sourcePlaylists", "p2"), ("separationEnabled", "on"),
    ("separation_artist", "1.5"), ("ads_enabled", "on"), ("ads_source_type", "Genre"),
    ("ads_genre", "Ads"), ("ads_every", "3")]

/-- The blocks' form is accepted and planned as submitted. -/
theorem carried_of_overlaidForm :
    ∃ s, read overlaidForm = .ok s ∧
      Carried nearestWhole overlaidForm 2024 s (Plan.ofDocuments s.rules s.sequence 2024) ∧
        ∀ n : Int, 0 ≤ n → n < 2 ^ 53 → nearestWhole n = n := by
  have haccepted : (read overlaidForm).toOption.isSome = true := by decide +kernel
  cases hread : read overlaidForm with
  | error cause => rw [hread] at haccepted; cases haccepted
  | ok s => exact ⟨s, rfl, carried_of_read hread 2024⟩

/-- A form whose count is the least that no number of 64 bits equals. -/
def largeCountForm : FormFields :=
  [("name", "n"), ("ads_enabled", "on"), ("ads_source_type", "genre"), ("ads_genre", "Ads"),
    ("ads_every", "9007199254740993")]

/-- Not every count is planned as it was submitted: this one loses its last bit. -/
theorem not_carried_unchanged :
    ¬ ∀ (fields : FormFields) (s : Submission) (year : Int), read fields = .ok s →
      Carried (fun n => n) fields year s (Plan.ofDocuments s.rules s.sequence year) := by
  intro hcarried
  have hbreaks : (read largeCountForm).toOption.map (fun s => Plan.breaksOf s.rules) =
      some ⟨true, some (.genre "Ads"), 9007199254740992, 1⟩ := by decide +kernel
  cases hread : read largeCountForm with
  | error cause => rw [hread] at hbreaks; cases hbreaks
  | ok s =>
      rw [hread] at hbreaks
      have hplanned : (Plan.ofDocuments s.rules s.sequence 2024).breaks =
          ⟨true, some (.genre "Ads"), 9007199254740992, 1⟩ := Option.some.inj hbreaks
      have hcount := (hcarried largeCountForm s 2024 hread).every (by rw [hplanned])
        9007199254740993 (by rfl)
      rw [hplanned] at hcount
      exact absurd hcount (by decide)

end Submission

end Rundown
