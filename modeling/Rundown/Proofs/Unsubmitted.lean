import Rundown.Proofs.Labels
import Rundown.Proofs.Overlay

/-!
# What a form leaves alone

A form changes its documents only under the keys of the fields that were submitted.
Every other key keeps its value, or stays absent, and so does every member of the
separation and of the interstitials whose own field was not submitted.  A form without
such fields is accepted with its documents as they are.

Which field changes what is one table, and what counts as a submission is said in terms of
the pairs of the form.  The value that a submitted field leaves behind is not described.
-/

namespace Rundown.Submission

open Text

/-! ## Fields and what they change -/

/-- What counts as a submission of a field. -/
inductive Manner where
  /-- A value that is not blank. -/
  | filled
  /-- Any value: a switch with a blank one is switched off. -/
  | named
  /-- A value that is not blank, also under the name with brackets. -/
  | listed
  deriving DecidableEq

/-- The form submits a field of this name. -/
def Manner.Submits (fields : FormFields) (name : String) : Manner → Prop
  | filled => ∃ pair ∈ fields, pair.1 = name ∧ isBlankText pair.2 = false
  | named => ∃ pair ∈ fields, pair.1 = name
  | listed => ∃ pair ∈ fields, (pair.1 = name ∨ pair.1 = name ++ "[]") ∧ isBlankText pair.2 = false

instance (fields : FormFields) (name : String) :
    (manner : Manner) → Decidable (manner.Submits fields name)
  | .filled =>
      inferInstanceAs (Decidable (∃ pair ∈ fields, pair.1 = name ∧ isBlankText pair.2 = false))
  | .named => inferInstanceAs (Decidable (∃ pair ∈ fields, pair.1 = name))
  | .listed =>
      inferInstanceAs (Decidable (∃ pair ∈ fields,
        (pair.1 = name ∨ pair.1 = name ++ "[]") ∧ isBlankText pair.2 = false))

/-- A field of a form and what it changes: a key of a document, or one member of the
object under that key. -/
structure FlatField where
  name : String
  manner : Manner
  key : String
  member : Option String
  deriving DecidableEq

/-- The form submits the field. -/
def FlatField.SubmittedIn (fields : FormFields) (f : FlatField) : Prop :=
  f.manner.Submits fields f.name

instance (fields : FormFields) (f : FlatField) : Decidable (f.SubmittedIn fields) :=
  inferInstanceAs (Decidable (f.manner.Submits fields f.name))

/-- A field that sets the key of its own name. -/
def FlatField.value (name : String) : FlatField :=
  ⟨name, .filled, name, none⟩

/-- A switch that sets the key of its own name. -/
def FlatField.switch (name : String) : FlatField :=
  ⟨name, .named, name, none⟩

/-- The fields that change the rules.  Submitted playlists also remove those that are
stored under the older name. -/
def ruleFields : List FlatField :=
  ["genre", "artist", "mood", "language", "text_search", "era", "targetMinutes",
    "durationAccuracy"].map .value ++
  [⟨"bpmMin", .filled, "bpmRange", none⟩, ⟨"bpmMax", .filled, "bpmRange", none⟩,
    ⟨"yearMin", .filled, "yearRange", none⟩, ⟨"yearMax", .filled, "yearRange", none⟩,
    ⟨"sourcePlaylists", .listed, "sourcePlaylists", none⟩,
    ⟨"sourcePlaylists", .listed, "source_playlists", none⟩] ++
  ["excludeExplicit", "includePublicArchive", "allowRepeats", "quotasEnabled",
    "fallbacksEnabled", "boostersEnabled", "separationEnabled"].map .switch ++
  [⟨"separation_artist", .filled, "separation", some "artist"⟩,
    ⟨"separation_title", .filled, "separation", some "title"⟩,
    ⟨"separation_album", .filled, "separation", some "album"⟩,
    ⟨"separation_label", .filled, "separation", some "label"⟩,
    ⟨"ads_enabled", .named, "interstitials", some "enabled"⟩,
    ⟨"ads_source_type", .filled, "interstitials", some "sourceType"⟩,
    ⟨"ads_playlist", .filled, "interstitials", some "playlistID"⟩,
    ⟨"ads_genre", .filled, "interstitials", some "genre"⟩,
    ⟨"ads_query", .filled, "interstitials", some "query"⟩,
    ⟨"ads_every", .filled, "interstitials", some "every"⟩,
    ⟨"ads_per_break", .filled, "interstitials", some "perBreak"⟩]

/-- The fields that change the sequence settings. -/
def sequenceFields : List FlatField :=
  [.value "mode", .switch "energyEnabled", .value "energyCurve"]

/-- No submitted field changes the key. -/
def Spares (fields : FormFields) (table : List FlatField) (key : String) : Prop :=
  ∀ f ∈ table, f.key = key → ¬ f.SubmittedIn fields

/-- No submitted field changes the member of the object under the key. -/
def SparesMember (fields : FormFields) (table : List FlatField) (key member : String) : Prop :=
  ∀ f ∈ table, f.key = key → f.member = some member → ¬ f.SubmittedIn fields

/-- A submission differs from the documents that were posted in what was submitted only. -/
structure KeepsRest (fields : FormFields) (rules sequence : Document) (s : Submission) :
    Prop where
  ruleKeys : ∀ key, Spares fields ruleFields key → s.rules.get? key = rules.get? key
  sequenceKeys : ∀ key, Spares fields sequenceFields key → s.sequence.get? key = sequence.get? key
  olderName : Manner.listed.Submits fields "sourcePlaylists" →
    s.rules.get? "source_playlists" = none
  members : ∀ key ∈ ["separation", "interstitials"], ∀ stored,
    rules.get? key = some (.obj stored) → ∃ merged, s.rules.get? key = some (.obj merged) ∧
      ∀ member, SparesMember fields ruleFields key member →
        Json.lookup? merged member = Json.lookup? stored member

/-! ## Values that were not submitted -/

section Absent

variable {fields : FormFields} {name : String}

theorem nonBlank?_eq_none_iff {s : String} : nonBlank? s = none ↔ isBlankText s = true := by
  have hempty : (trim s).isEmpty = true ↔ isBlankText s = true := by
    rw [String.isEmpty_iff, trim, isBlankText, List.all_eq_true, ← dropEnds_eq_nil_iff,
      ← String.toList_inj, String.toList_ofList]
    rfl
  rw [← hempty, nonBlank?]
  simp

theorem value?_eq_none (h : ¬ Manner.filled.Submits fields name) : fields.value? name = none := by
  unfold FormFields.value?
  rw [List.findSome?_eq_none_iff]
  rintro ⟨key, value⟩ hpair
  dsimp only
  split
  · rename_i hkey
    rw [nonBlank?_eq_none_iff, ← Bool.not_eq_false]
    exact fun hfilled => h ⟨(key, value), List.mem_reverse.mp hpair, hkey, hfilled⟩
  · rfl

theorem flag?_eq_none (h : ¬ Manner.named.Submits fields name) : fields.flag? name = none := by
  have habsent : fields.has name = false := by
    rw [FormFields.has, List.any_eq_false]
    exact fun pair hpair hname => h ⟨pair, hpair, of_decide_eq_true hname⟩
  rw [FormFields.flag?, habsent]
  rfl

theorem values_eq_nil_iff :
    fields.values name = [] ↔ ¬ Manner.listed.Submits fields name := by
  rw [FormFields.values, List.filterMap_eq_nil_iff]
  constructor
  · rintro hnone ⟨⟨key, value⟩, hpair, hname, hfilled⟩
    have hblank := hnone _ hpair
    dsimp only at hblank hname hfilled
    rw [if_pos (by simpa using hname), nonBlank?_eq_none_iff, hfilled] at hblank
    cases hblank
  · rintro h ⟨key, value⟩ hpair
    dsimp only
    split
    · rename_i hkey
      rw [nonBlank?_eq_none_iff, ← Bool.not_eq_false]
      exact fun hfilled => h ⟨(key, value), hpair, by simpa using hkey, hfilled⟩
    · rfl

end Absent

/-! ## Writes without a value -/

section Unwritten

variable {writes : List Write} {key : String}

/-- A key for which no write has a value keeps its value. -/
theorem get?_setAll_of_unwritten (h : ∀ w ∈ writes, w.1 = key → w.2 = none) (d : Document) :
    (setAll writes d).get? key = d.get? key := by
  induction writes generalizing d with
  | nil => rfl
  | cons w rest ih =>
      have hrest := ih (fun v hv => h v (List.mem_cons_of_mem w hv)) (setIf d w.1 w.2)
      refine hrest.trans ?_
      rw [get?_setIf]
      split
      · rename_i hkey
        rw [h w List.mem_cons_self hkey, Option.none_or]
      · rfl

/-- Without any value the document stays as it is. -/
theorem setAll_of_unwritten (h : ∀ w ∈ writes, w.2 = none) (d : Document) :
    setAll writes d = d := by
  induction writes with
  | nil => rfl
  | cons w rest ih =>
      have hfirst : setIf d w.1 w.2 = d := by
        rw [h w List.mem_cons_self]
        rfl
      change setAll rest (setIf d w.1 w.2) = d
      rw [hfirst]
      exact ih fun v hv => h v (List.mem_cons_of_mem w hv)

namespace Overlaid

theorem setAll_of_unwritten (h : ∀ w ∈ writes, w.2 = none) (o : Overlaid) :
    o.setAll writes = o := by
  induction writes with
  | nil => rfl
  | cons w rest ih =>
      have hfirst : o.setIf w.1 w.2 = o := by
        rw [h w List.mem_cons_self]
        rfl
      change (o.setIf w.1 w.2).setAll rest = o
      rw [hfirst]
      exact ih fun v hv => h v (List.mem_cons_of_mem w hv)

/-- Members of which none is set are not put back, so the document stays as it is. -/
theorem store_of_unwritten (h : ∀ w ∈ writes, w.2 = none) (d : Document) :
    (setAll writes ⟨membersAt d key, false⟩).store d key = d := by
  rw [setAll_of_unwritten h]
  rfl

theorem membersAt_of_get? {d : Document} {members : Json.Members}
    (h : d.get? key = some (.obj members)) : membersAt d key = members := by
  change ((d.get? key).bind Json.members?).getD [] = members
  rw [h]
  rfl

/-- An object stays an object, and its members keep their values if no write has one for
them. -/
theorem exists_get?_store (writes : List Write) {d : Document} {members : Json.Members}
    (h : d.get? key = some (.obj members)) :
    ∃ merged, ((setAll writes ⟨membersAt d key, false⟩).store d key).get? key =
        some (.obj merged) ∧
      ∀ member, (∀ w ∈ writes, w.1 = member → w.2 = none) →
        Json.lookup? merged member = Json.lookup? members member := by
  have hmembers := membersAt_of_get? h
  unfold store
  split
  · refine ⟨(setAll writes ⟨membersAt d key, false⟩).members, ?_, ?_⟩
    · rw [Document.get?_set, if_pos rfl]
    · intro member hmember
      rw [members_setAll, hmembers]
      exact get?_setAll_of_unwritten hmember ⟨members⟩
  · exact ⟨members, h, fun _ _ => rfl⟩

end Overlaid

end Unwritten

/-! ## The writes of a form -/

section Writes

variable {fields : FormFields} {keys : List String} {key : String}

theorem Spares.value?_eq_none {table : List FlatField} (h : Spares fields table key)
    (name : String) (member : Option String) (hmem : ⟨name, .filled, key, member⟩ ∈ table) :
    fields.value? name = none :=
  Submission.value?_eq_none (h _ hmem rfl)

theorem Spares.flag?_eq_none {table : List FlatField} (h : Spares fields table key)
    {name : String} {member : Option String} (hmem : ⟨name, .named, key, member⟩ ∈ table) :
    fields.flag? name = none :=
  Submission.flag?_eq_none (h _ hmem rfl)

theorem textWrites_unwritten {table : List FlatField} (h : Spares fields table key)
    (hkeys : ∀ k ∈ keys, FlatField.value k ∈ table) :
    ∀ w ∈ textWrites fields keys, w.1 = key → w.2 = none := by
  intro w hw hkey
  obtain ⟨k, hk, rfl⟩ := List.mem_map.mp hw
  obtain rfl : k = key := hkey
  change (fields.value? k).map Json.str = none
  rw [h.value?_eq_none k none (hkeys k hk), Option.map_none]

theorem flagWrites_unwritten {table : List FlatField} (h : Spares fields table key)
    (hkeys : ∀ k ∈ keys, FlatField.switch k ∈ table) :
    ∀ w ∈ flagWrites fields keys, w.1 = key → w.2 = none := by
  intro w hw hkey
  obtain ⟨k, hk, rfl⟩ := List.mem_map.mp hw
  obtain rfl : k = key := hkey
  change (fields.flag? k).map Json.bool = none
  rw [h.flag?_eq_none (hkeys k hk), Option.map_none]

theorem whole?_of_absent {name : String} (h : fields.value? name = none) :
    fields.whole? name = .ok none := by
  rw [FormFields.whole?, h]

theorem number?_of_absent {name : String} (h : fields.value? name = none) :
    fields.number? name = .ok none := by
  rw [FormFields.number?, h]

theorem targetMinutes?_of_absent (h : fields.value? "targetMinutes" = none) :
    targetMinutes? fields = .ok none := by
  rw [targetMinutes?, whole?_of_absent h]
  rfl

theorem gap?_of_absent {a : Attribute} (h : fields.value? ("separation_" ++ a.name) = none) :
    gap? fields a = .ok none := by
  rw [gap?, number?_of_absent h]
  rfl

theorem count?_of_absent {name : String} (h : fields.value? name = none) :
    count? fields name = .ok none := by
  rw [count?, whole?_of_absent h]
  rfl

theorem energyCurve?_of_absent (h : fields.value? "energyCurve" = none) :
    energyCurve? fields = .ok none := by
  rw [energyCurve?, h]

theorem playlists?_of_absent (h : ¬ Manner.listed.Submits fields "sourcePlaylists") :
    playlists? fields = none := by
  rw [playlists?, values_eq_nil_iff.mpr h]
  rfl

theorem valueWrites_unwritten (h : Spares fields ruleFields key) :
    ∀ w ∈ valueWrites fields, w.1 = key → w.2 = none := by
  unfold valueWrites
  simp only [List.forall_mem_cons, List.not_mem_nil, false_implies, implies_true, and_true]
  refine ⟨?_, ?_, ?_, ?_, ?_⟩
  · rintro rfl
    rw [targetMinutes?_of_absent (h.value?_eq_none "targetMinutes" none (by decide))]
    rfl
  · rintro rfl
    rw [whole?_of_absent (h.value?_eq_none "durationAccuracy" none (by decide))]
    rfl
  · rintro rfl
    rw [number?_of_absent (h.value?_eq_none "bpmMin" none (by decide)),
      number?_of_absent (h.value?_eq_none "bpmMax" none (by decide))]
    rfl
  · rintro rfl
    rw [whole?_of_absent (h.value?_eq_none "yearMin" none (by decide)),
      whole?_of_absent (h.value?_eq_none "yearMax" none (by decide))]
    rfl
  · rintro rfl
    exact playlists?_of_absent (h ⟨"sourcePlaylists", .listed, "sourcePlaylists", none⟩
      (by decide) rfl)

theorem filterWrites_unwritten (h : Spares fields ruleFields key) :
    ∀ w ∈ filterWrites fields, w.1 = key → w.2 = none := by
  intro w hw
  rcases List.mem_append.mp hw with hw | hflag
  · rcases List.mem_append.mp hw with htext | hvalue
    · exact textWrites_unwritten h (by decide) w htext
    · exact valueWrites_unwritten h w hvalue
  · exact flagWrites_unwritten h (by decide) w hflag

theorem switchWrites_unwritten (h : Spares fields ruleFields key) :
    ∀ w ∈ flagWrites fields ["separationEnabled"], w.1 = key → w.2 = none :=
  flagWrites_unwritten h (by decide)

theorem sequenceWrites_unwritten (h : Spares fields sequenceFields key) :
    ∀ w ∈ sequenceWrites fields, w.1 = key → w.2 = none := by
  intro w hw
  rcases List.mem_append.mp hw with hw | hcurve
  · rcases List.mem_append.mp hw with htext | hflag
    · exact textWrites_unwritten h (by decide) w htext
    · exact flagWrites_unwritten h (by decide) w hflag
  · obtain rfl := List.mem_singleton.mp hcurve
    intro hkey
    obtain rfl : "energyCurve" = key := hkey
    change accepted? (energyCurve? fields) = none
    rw [energyCurve?_of_absent (h.value?_eq_none "energyCurve" none (by decide))]
    rfl

theorem gapWrites_unwritten {member : String}
    (h : SparesMember fields ruleFields "separation" member) :
    ∀ w ∈ gapWrites fields, w.1 = member → w.2 = none := by
  intro w hw hmember
  obtain ⟨a, ha, rfl⟩ := List.mem_map.mp hw
  obtain rfl : a.name = member := hmember
  have hfield : ∀ a ∈ Attribute.separable,
      ⟨"separation_" ++ a.name, .filled, "separation", some a.name⟩ ∈ ruleFields := by decide
  have habsent := value?_eq_none (h _ (hfield a ha) rfl rfl)
  change (accepted? (gap? fields a)).map Json.real = none
  rw [gap?_of_absent habsent]
  rfl

theorem breakWrites_unwritten {member : String}
    (h : SparesMember fields ruleFields "interstitials" member) :
    ∀ w ∈ breakWrites fields, w.1 = member → w.2 = none := by
  have hfields : ∀ source ∈ sourceKeys ++ countKeys,
      ⟨source.1, .filled, "interstitials", some source.2⟩ ∈ ruleFields := by decide
  intro w hw hmember
  rcases List.mem_append.mp hw with hw | hw
  · rcases List.mem_cons.mp hw with rfl | hw
    · obtain rfl : "enabled" = member := hmember
      have habsent := flag?_eq_none (h
        ⟨"ads_enabled", .named, "interstitials", some "enabled"⟩ (by decide) rfl rfl)
      change (fields.flag? "ads_enabled").map Json.bool = none
      rw [habsent, Option.map_none]
    · obtain ⟨source, hsource, rfl⟩ := List.mem_map.mp hw
      obtain rfl : source.2 = member := hmember
      have habsent := value?_eq_none
        (h _ (hfields source (List.mem_append_left _ hsource)) rfl rfl)
      change (fields.value? source.1).map Json.str = none
      rw [habsent, Option.map_none]
  · obtain ⟨count, hcount, rfl⟩ := List.mem_map.mp hw
    obtain rfl : count.2 = member := hmember
    have habsent := value?_eq_none
      (h _ (hfields count (List.mem_append_right _ hcount)) rfl rfl)
    change (accepted? (count? fields count.1)).map Json.int = none
    rw [count?_of_absent habsent]
    rfl

/-- A spared object is spared in each of its members. -/
theorem Spares.member (h : Spares fields ruleFields key) (member : String) :
    SparesMember fields ruleFields key member :=
  fun f hf hkey _ => h f hf hkey

end Writes

/-! ## The whole form -/

section Rules

variable {fields : FormFields} {rules filtered separated broken : Document}
  (hfiltered : overlayFilters fields rules = .ok filtered)
  (hseparated : overlaySeparation fields filtered = .ok separated)
  (hbroken : overlayBreaks fields separated = .ok broken)

include hfiltered in
theorem get?_filtered_of_spares {key : String} (h : Spares fields ruleFields key) :
    filtered.get? key = rules.get? key := by
  rw [(overlayFilters_eq hfiltered).2, get?_setAll_of_unwritten (filterWrites_unwritten h)]
  by_cases halias : key = "source_playlists"
  · have hnone := values_eq_nil_iff.mpr (h
      ⟨"sourcePlaylists", .listed, "source_playlists", none⟩ (by decide) halias.symm)
    rw [withoutAlias, hnone]
    rfl
  · exact get?_withoutAlias halias

include hfiltered hseparated hbroken

theorem get?_of_spares {key : String} (h : Spares fields ruleFields key) :
    broken.get? key = rules.get? key := by
  have hbreaks : broken.get? key = separated.get? key := by
    by_cases hkey : key = "interstitials"
    · subst hkey
      rw [(overlayBreaks_eq hbroken).2, Overlaid.store_of_unwritten]
      exact fun w hw => breakWrites_unwritten (h.member w.1) w hw rfl
    · exact get?_broken hbroken hkey
  have hgaps : separated.get? key =
      (setAll (flagWrites fields ["separationEnabled"]) filtered).get? key := by
    by_cases hkey : key = "separation"
    · subst hkey
      rw [(overlaySeparation_eq hseparated).2, Overlaid.store_of_unwritten]
      exact fun w hw => gapWrites_unwritten (h.member w.1) w hw rfl
    · exact get?_separated hseparated hkey
  rw [hbreaks, hgaps, get?_setAll_of_unwritten (switchWrites_unwritten h),
    get?_filtered_of_spares hfiltered h]

theorem get?_olderName (h : Manner.listed.Submits fields "sourcePlaylists") :
    broken.get? "source_playlists" = none := by
  have hsome : (fields.values "sourcePlaylists").isEmpty = false := by
    rw [List.isEmpty_eq_false_iff, Ne, values_eq_nil_iff, not_not]
    exact h
  rw [get?_broken hbroken (by decide), get?_separated hseparated (by decide),
    get?_setAll_of_not_mem (by rw [flagWrites, map_fst_writesTo]; decide),
    (overlayFilters_eq hfiltered).2,
    get?_setAll_of_not_mem (by rw [map_fst_filterWrites]; decide), withoutAlias, hsome,
    if_neg Bool.false_ne_true, Document.get?_remove, if_pos rfl]

theorem exists_separation {stored : Json.Members}
    (h : rules.get? "separation" = some (.obj stored)) :
    ∃ merged, broken.get? "separation" = some (.obj merged) ∧
      ∀ member, SparesMember fields ruleFields "separation" member →
        Json.lookup? merged member = Json.lookup? stored member := by
  have hbefore : (setAll (flagWrites fields ["separationEnabled"]) filtered).get? "separation" =
      some (.obj stored) := by
    rw [← h]
    exact get?_switched hfiltered (by rw [map_fst_filterWrites]; decide) (by decide) (by decide)
  obtain ⟨merged, hmerged, hkept⟩ := Overlaid.exists_get?_store (gapWrites fields) hbefore
  refine ⟨merged, ?_, fun member hmember => hkept member (gapWrites_unwritten hmember)⟩
  rw [get?_broken hbroken (by decide), (overlaySeparation_eq hseparated).2, hmerged]

theorem exists_interstitials {stored : Json.Members}
    (h : rules.get? "interstitials" = some (.obj stored)) :
    ∃ merged, broken.get? "interstitials" = some (.obj merged) ∧
      ∀ member, SparesMember fields ruleFields "interstitials" member →
        Json.lookup? merged member = Json.lookup? stored member := by
  have hbefore : separated.get? "interstitials" = some (.obj stored) := by
    rw [get?_separated hseparated (by decide), ← h]
    exact get?_switched hfiltered (by rw [map_fst_filterWrites]; decide) (by decide) (by decide)
  obtain ⟨merged, hmerged, hkept⟩ := Overlaid.exists_get?_store (breakWrites fields) hbefore
  refine ⟨merged, ?_, fun member hmember => hkept member (breakWrites_unwritten hmember)⟩
  rw [(overlayBreaks_eq hbroken).2, hmerged]

end Rules

theorem keepsRest_of_read {fields : FormFields} {s : Submission} (h : read fields = .ok s) :
    ∃ rules sequence, document fields "rules" = .ok rules ∧
      document fields "sequence" = .ok sequence ∧ KeepsRest fields rules sequence s := by
  obtain ⟨rules, sequence, filtered, separated, hrules, hsequence, hfiltered, hseparated,
    hbroken, hsettings⟩ := exists_stages_of_read h
  refine ⟨rules, sequence, hrules, hsequence, {
    ruleKeys := fun key hkey => get?_of_spares hfiltered hseparated hbroken hkey
    sequenceKeys := ?_
    olderName := get?_olderName hfiltered hseparated hbroken
    members := ?_ }⟩
  · intro key hkey
    rw [(overlaySequence_eq hsettings).2, get?_setAll_of_unwritten (sequenceWrites_unwritten hkey)]
  · intro key hkey stored hstored
    rcases List.mem_cons.mp hkey with rfl | hkey
    · exact exists_separation hfiltered hseparated hbroken hstored
    · obtain rfl := List.mem_singleton.mp hkey
      exact exists_interstitials hfiltered hseparated hbroken hstored

/-! ## Forms that submit documents only -/

theorem foldlM_of_absent {α β : Type} (key : α → String) (encode : β → Json)
    {read : α → Except BlockError (Option β)} {items : List α}
    (h : ∀ a ∈ items, read a = .ok none) (o : Overlaid) :
    items.foldlM (fun (o : Overlaid) a => return o.setIf (key a) ((← read a).map encode)) o =
      .ok o := by
  induction items with
  | nil => rfl
  | cons a rest ih =>
      rw [List.foldlM_cons, h a List.mem_cons_self]
      exact ih fun b hb => h b (List.mem_cons_of_mem a hb)

section Bare

variable {fields : FormFields}
  (hbare : ∀ f ∈ ruleFields ++ sequenceFields, ¬ f.SubmittedIn fields)

include hbare

theorem spares_ruleFields (key : String) : Spares fields ruleFields key :=
  fun f hf _ => hbare f (List.mem_append_left _ hf)

theorem spares_sequenceFields (key : String) : Spares fields sequenceFields key :=
  fun f hf _ => hbare f (List.mem_append_right _ hf)

theorem overlayFilters_of_bare (rules : Document) : overlayFilters fields rules = .ok rules := by
  have habsent : ∀ name ∈ ["targetMinutes", "durationAccuracy", "bpmMin", "bpmMax", "yearMin",
      "yearMax"], fields.value? name = none := by
    have hfields : ∀ name ∈ ["targetMinutes", "durationAccuracy", "bpmMin", "bpmMax", "yearMin",
        "yearMax"], ∃ f ∈ ruleFields, f.name = name ∧ f.manner = .filled := by decide
    intro name hname
    obtain ⟨f, hf, rfl, hmanner⟩ := hfields name hname
    apply value?_eq_none
    rw [← hmanner]
    exact hbare f (List.mem_append_left _ hf)
  have hplaylists : fields.values "sourcePlaylists" = [] :=
    values_eq_nil_iff.mpr (hbare ⟨"sourcePlaylists", .listed, "sourcePlaylists", none⟩ (by decide))
  have htexts : overlayTexts fields textKeys rules = rules := by
    rw [overlayTexts_eq, setAll_of_unwritten]
    exact fun w hw => textWrites_unwritten (spares_ruleFields hbare w.1) (by decide) w hw rfl
  have hflags : overlayFlags fields flagKeys rules = rules := by
    rw [overlayFlags_eq, setAll_of_unwritten]
    exact fun w hw => flagWrites_unwritten (spares_ruleFields hbare w.1) (by decide) w hw rfl
  rw [overlayFilters, htexts, targetMinutes?_of_absent (habsent _ (by decide)),
    whole?_of_absent (habsent "durationAccuracy" (by decide)),
    number?_of_absent (habsent "bpmMin" (by decide)),
    number?_of_absent (habsent "bpmMax" (by decide)),
    whole?_of_absent (habsent "yearMin" (by decide)),
    whole?_of_absent (habsent "yearMax" (by decide)), hplaylists]
  exact congrArg Except.ok hflags

theorem overlaySeparation_of_bare (rules : Document) :
    overlaySeparation fields rules = .ok rules := by
  have hswitch : overlayFlags fields ["separationEnabled"] rules = rules := by
    rw [overlayFlags_eq, setAll_of_unwritten]
    exact fun w hw => flagWrites_unwritten (spares_ruleFields hbare w.1) (by decide) w hw rfl
  have habsent : ∀ a ∈ Attribute.separable, gap? fields a = .ok none := by
    have hfields : ∀ a ∈ Attribute.separable,
        ⟨"separation_" ++ a.name, .filled, "separation", some a.name⟩ ∈ ruleFields := by decide
    intro a ha
    exact gap?_of_absent (value?_eq_none (hbare _ (List.mem_append_left _ (hfields a ha))))
  rw [overlaySeparation, hswitch, foldlM_of_absent Attribute.name Json.real habsent]
  rfl

theorem overlayBreaks_of_bare (rules : Document) : overlayBreaks fields rules = .ok rules := by
  -- The writes before the counts are those of an accepted form.
  let before : List Write := ("enabled", (fields.flag? "ads_enabled").map Json.bool) ::
    sourceKeys.map fun source => (source.2, (fields.value? source.1).map Json.str)
  have hbefore : Overlaid.setAll before ⟨membersAt rules "interstitials", false⟩ =
      ⟨membersAt rules "interstitials", false⟩ := by
    apply Overlaid.setAll_of_unwritten
    intro w hw
    exact breakWrites_unwritten ((spares_ruleFields hbare _).member w.1) w
      (List.mem_append_left _ hw) rfl
  have habsent : ∀ count ∈ countKeys, count? fields count.1 = .ok none := by
    have hfields : ∀ count ∈ countKeys,
        ⟨count.1, .filled, "interstitials", some count.2⟩ ∈ ruleFields := by decide
    intro count hcount
    have hfield := List.mem_append_left sequenceFields (hfields count hcount)
    exact count?_of_absent (value?_eq_none (hbare _ hfield))
  unfold overlayBreaks
  refine bind_eq_ok.mpr ⟨⟨membersAt rules "interstitials", false⟩, ?_, rfl⟩
  change countKeys.foldlM _ (Overlaid.setAll before ⟨membersAt rules "interstitials", false⟩) = _
  rw [hbefore]
  exact foldlM_of_absent Prod.snd Json.int habsent _

theorem overlaySequence_of_bare (sequence : Document) :
    overlaySequence fields sequence = .ok sequence := by
  have hcurve : fields.value? "energyCurve" = none :=
    value?_eq_none (hbare (.value "energyCurve") (by decide))
  have hmode : overlayTexts fields ["mode"] sequence = sequence := by
    rw [overlayTexts_eq, setAll_of_unwritten]
    exact fun w hw => textWrites_unwritten (spares_sequenceFields hbare w.1) (by decide) w hw rfl
  have henergy : overlayFlags fields ["energyEnabled"] sequence = sequence := by
    rw [overlayFlags_eq, setAll_of_unwritten]
    exact fun w hw => flagWrites_unwritten (spares_sequenceFields hbare w.1) (by decide) w hw rfl
  rw [overlaySequence, hmode, henergy, energyCurve?_of_absent hcurve]
  rfl

end Bare

/-! ## What an accepted form has changed -/

/-- An accepted form changes what was submitted and nothing else, and a form that submits
only documents is accepted with these as they are. -/
theorem read_changes_submitted_only (fields : FormFields) :
    (∀ s, read fields = .ok s → ∃ rules sequence, document fields "rules" = .ok rules ∧
      document fields "sequence" = .ok sequence ∧ KeepsRest fields rules sequence s) ∧
    ((∀ f ∈ ruleFields ++ sequenceFields, ¬ f.SubmittedIn fields) →
      ∀ name rules sequence, fields.value? "name" = some name →
        document fields "rules" = .ok rules → document fields "sequence" = .ok sequence →
          read fields = .ok ⟨name, (fields.value? "description").getD "", rules, sequence⟩) := by
  refine ⟨fun s h => keepsRest_of_read h, ?_⟩
  intro hbare name rules sequence hname hrules hsequence
  rw [read, hname]
  simp only [hrules, hsequence, bind, Except.bind, overlayFilters_of_bare hbare,
    overlaySeparation_of_bare hbare, overlayBreaks_of_bare hbare, overlaySequence_of_bare hbare]

/-- A form that submits some fields over rules with an object, a value that is no object
and members of its own. -/
def partialForm : FormFields :=
  [("name", "Evening"),
    ("rules", "\x7b\"weights\":[1],\"separation\":\x7b\"artist\":5,\"mood\":9\x7d," ++
      "\"interstitials\":3,\"source_playlists\":\"a\"\x7d"),
    ("separation_artist", "1.5"), ("genre", " "), ("allowRepeats", ""),
    ("sourcePlaylists[]", "p1")]

/-- A form that submits rules, and a filter that is blank. -/
def documentForm : FormFields :=
  [("name", " Evening "), ("rules", "\x7b\"weights\":[1],\"genre\":\"Rock\"\x7d"), ("genre", " ")]

/-- Both forms are accepted, the second one with its documents. -/
theorem read_changes_submitted_only_sample :
    (∃ s, read partialForm = .ok s ∧ ∃ rules sequence,
      document partialForm "rules" = .ok rules ∧ document partialForm "sequence" = .ok sequence ∧
        KeepsRest partialForm rules sequence s) ∧
    (∀ f ∈ ruleFields ++ sequenceFields, ¬ f.SubmittedIn documentForm) ∧
    ∃ rules sequence, document documentForm "rules" = .ok rules ∧
      document documentForm "sequence" = .ok sequence ∧
        read documentForm = .ok ⟨"Evening", "", rules, sequence⟩ := by
  have hpartial : (read partialForm).toOption.isSome = true := by decide +kernel
  have hrules : (document documentForm "rules").toOption.isSome = true := by decide +kernel
  have hbare : ∀ f ∈ ruleFields ++ sequenceFields, ¬ f.SubmittedIn documentForm := by decide
  refine ⟨?_, hbare, ?_⟩
  · cases hread : read partialForm with
    | error cause => rw [hread] at hpartial; cases hpartial
    | ok s => exact ⟨s, rfl, (read_changes_submitted_only partialForm).1 s hread⟩
  · cases hread : document documentForm "rules" with
    | error cause => rw [hread] at hrules; cases hrules
    | ok rules =>
        exact ⟨rules, Document.empty, rfl, rfl, (read_changes_submitted_only documentForm).2 hbare
          "Evening" rules Document.empty (by rfl) hread rfl⟩

end Rundown.Submission
