import Rundown.Plan.Normalize

/-!
# What a plan takes from its documents

The fields of a plan in terms of the values that the documents hold.  An object
that is missing is read as one without members, so a field that is kept in such
an object depends on its members only.
-/

namespace Rundown.Plan

/-! ## Documents that hold the same -/

section Congruence

variable {d e : Document} {key : String}

theorem label?_congr (h : d.get? key = e.get? key) : d.label? key = e.label? key :=
  congrArg (fun value => value.bind Json.label?) h

theorem whole?_congr (h : d.get? key = e.get? key) : d.whole? key = e.whole? key :=
  congrArg (fun value => value.bind Json.whole?) h

theorem truth_congr (h : d.get? key = e.get? key) : d.truth key = e.truth key :=
  congrArg (fun value => (value.map Json.truth).getD false) h

theorem items_congr (h : d.get? key = e.get? key) : d.items key = e.items key :=
  congrArg (fun value => (value.bind Json.items?).getD []) h

theorem firstOf?_congr {keys : List String} (h : ∀ key ∈ keys, d.get? key = e.get? key) :
    d.firstOf? keys = e.firstOf? keys := by
  induction keys with
  | nil => rfl
  | cons key rest ih =>
      obtain ⟨hkey, hrest⟩ := List.forall_mem_cons.mp h
      unfold Document.get? at hkey
      unfold Document.firstOf? Json.firstOf? at ih ⊢
      rw [List.findSome?_cons, List.findSome?_cons, hkey, ih hrest]

/-- Null holds no bounds, so it need not be told from a value that is absent. -/
theorem boundsAt?_eq (d : Document) (key : String) :
    boundsAt? d key =
      ((d.get? key).map Json.bounds).filter fun (low, high) => low.isSome || high.isSome := by
  unfold boundsAt? Document.firstOf? Json.firstOf? Document.get?
  rw [List.findSome?_singleton]
  cases Json.lookup? d.fields key with
  | none => rfl
  | some value => cases value <;> rfl

/-- The keys of the criteria whose values are read as they are. -/
def criteriaKeys : List String :=
  ["text_search", "genre", "artist", "mood", "language", "era", "sourcePlaylists",
    "source_playlists", "includePublicArchive", "include_archive"]

/-- The keys of the criteria that hold bounds. -/
def rangeKeys : List String :=
  ["bpmRange", "yearRange"]

/-- Criteria depend on what is read under their keys. -/
theorem criteriaOf_congr (hvalues : ∀ key ∈ criteriaKeys, d.get? key = e.get? key)
    (hranges : ∀ key ∈ rangeKeys, boundsAt? d key = boundsAt? e key)
    (hexplicit : d.truth "excludeExplicit" = e.truth "excludeExplicit") (year : Int) :
    criteriaOf d year = criteriaOf e year := by
  have hlabel : ∀ key ∈ criteriaKeys, d.label? key = e.label? key :=
    fun key hkey => label?_congr (hvalues key hkey)
  have hfirst : ∀ keys ⊆ criteriaKeys, d.firstOf? keys = e.firstOf? keys :=
    fun keys hkeys => firstOf?_congr fun key hkey => hvalues key (hkeys hkey)
  unfold criteriaOf
  rw [hlabel "text_search" (by decide), hlabel "genre" (by decide), hlabel "artist" (by decide),
    hlabel "mood" (by decide), hlabel "language" (by decide), hlabel "era" (by decide),
    hranges "bpmRange" (by decide), hranges "yearRange" (by decide), hexplicit,
    hfirst ["sourcePlaylists", "source_playlists"] (by decide),
    hfirst ["includePublicArchive", "include_archive"] (by decide)]

end Congruence

/-! ## Fields -/

variable {rules : Document} (sequence : Document) (year : Int)

/-- Bounds of which none binds are no bounds. -/
theorem boundsAt?_bind {key : String} {range : Json}
    (hrange : rules.firstOf? [key] = some range) :
    (boundsAt? rules key).bind (·.1) = range.bounds.1 ∧
      (boundsAt? rules key).bind (·.2) = range.bounds.2 := by
  unfold boundsAt?
  rw [hrange, Option.map_some]
  obtain ⟨low, high⟩ := range.bounds
  cases low <;> cases high <;> exact ⟨rfl, rfl⟩

theorem tempo_ofDocuments {range : Json} (hrange : rules.firstOf? ["bpmRange"] = some range) :
    (ofDocuments rules sequence year).criteria.tempo.bind (·.min) = range.bounds.1 ∧
      (ofDocuments rules sequence year).criteria.tempo.bind (·.max) = range.bounds.2 := by
  obtain ⟨hlow, hhigh⟩ := boundsAt?_bind hrange
  rw [← hlow, ← hhigh]
  change ((boundsAt? rules "bpmRange").map _).bind _ = _ ∧
    ((boundsAt? rules "bpmRange").map _).bind _ = _
  cases boundsAt? rules "bpmRange" <;> exact ⟨rfl, rfl⟩

theorem years_ofDocuments {range : Json} (hrange : rules.firstOf? ["yearRange"] = some range) :
    (ofDocuments rules sequence year).criteria.year.bind (·.min) =
        range.bounds.1.map Decimal.truncateToHalfWord ∧
      (ofDocuments rules sequence year).criteria.year.bind (·.max) =
        range.bounds.2.map Decimal.truncateToHalfWord := by
  obtain ⟨hlow, hhigh⟩ := boundsAt?_bind hrange
  rw [← hlow, ← hhigh]
  change ((boundsAt? rules "yearRange").map _).bind _ = _ ∧
    ((boundsAt? rules "yearRange").map _).bind _ = _
  cases boundsAt? rules "yearRange" <;> exact ⟨rfl, rfl⟩

theorem era_ofDocuments {label : String} (hlabel : rules.label? "era" = some label) :
    (ofDocuments rules sequence year).criteria.era = eraRange? label year := by
  change (rules.label? "era").bind _ = _
  rw [hlabel, Option.bind_some]

/-- The separation in terms of its members, whether or not there is an object. -/
theorem separationOf_eq (rules : Document) :
    separationOf rules =
      if rules.truth "separationEnabled" then
        Attribute.separable.filterMap fun a =>
          (gapAt? ((rules.members? "separation").getD []) a).map (a, ·)
      else [] := by
  unfold separationOf
  cases rules.members? "separation" with
  | none => rfl
  | some members => rfl

/-- The breaks in terms of their members, whether or not there is an object. -/
theorem breaksOf_eq (rules : Document) :
    breaksOf rules =
      let doc := (rules.members? "interstitials").getD []
      if Json.truthAt doc "enabled" then
        match breakSourceOf? doc with
        | none => Breaks.off
        | some source =>
            ⟨true, some source, countAt doc "every" Breaks.off.every,
              countAt doc "perBreak" Breaks.off.perBreak⟩
      else Breaks.off := by
  unfold breaksOf
  cases rules.members? "interstitials" with
  | none => rfl
  | some members => rfl

/-- Breaks that are switched on keep the rhythm of their members. -/
theorem rhythm_of_enabled {rules : Document} (h : (breaksOf rules).enabled = true) :
    (breaksOf rules).every =
        countAt ((rules.members? "interstitials").getD []) "every" Breaks.off.every ∧
      (breaksOf rules).perBreak =
        countAt ((rules.members? "interstitials").getD []) "perBreak" Breaks.off.perBreak := by
  rw [breaksOf_eq] at h ⊢
  simp only at h ⊢
  split at h
  · rename_i hon
    rw [if_pos hon]
    split at h
    · cases h
    · exact ⟨rfl, rfl⟩
  · cases h

theorem mem_separationOf {rules : Document} (hon : rules.truth "separationEnabled" = true)
    {a : Attribute} (ha : a ∈ Attribute.separable) {gap : Int} :
    (a, gap) ∈ separationOf rules ↔
      gapAt? ((rules.members? "separation").getD []) a = some gap := by
  rw [separationOf_eq, if_pos hon, List.mem_filterMap]
  constructor
  · rintro ⟨b, _, hpair⟩
    obtain ⟨g, hgap, hsame⟩ := Option.map_eq_some_iff.mp hpair
    cases hsame
    exact hgap
  · intro hgap
    exact ⟨a, ha, by rw [hgap]; rfl⟩

theorem separationOf_of_off {rules : Document} (h : rules.truth "separationEnabled" = false) :
    separationOf rules = [] := by
  rw [separationOf_eq, h, if_neg Bool.false_ne_true]

end Rundown.Plan
