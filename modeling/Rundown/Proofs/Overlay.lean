import Mathlib.Data.List.Nodup
import Rundown.Form
import Rundown.Proofs.Gathering

/-!
# What a form writes

A form is laid over its documents field by field.  No field is written twice, so
the order of the writes does not matter: a written field holds the value that was
submitted for it, and what it held before when none was.  The same holds of the
members of the separation and of the interstitials, which are written as one
field each.

The result is one record of what an accepted form leaves in its documents.  The
fields that no form writes are not described by it, apart from the older name of
the playlists.
-/

namespace Rundown.Submission

/-! ## Writes in a row -/

/-- A key and the value to set it to, if there is one. -/
abbrev Write : Type :=
  String × Option Json

/-- Make all writes, one after the other. -/
def setAll (writes : List Write) (d : Document) : Document :=
  writes.foldl (fun d w => setIf d w.1 w.2) d

theorem setAll_append (first second : List Write) (d : Document) :
    setAll (first ++ second) d = setAll second (setAll first d) :=
  List.foldl_append

theorem get?_setIf (d : Document) (key other : String) (value : Option Json) :
    (setIf d key value).get? other =
      if key = other then value.or (d.get? other) else d.get? other := by
  cases value with
  | none => simp [setIf]
  | some v => simp [setIf, Document.get?_set]

/-- Writes look at a document through the field in question only. -/
theorem get?_setAll_congr {writes : List Write} {d e : Document} {key : String}
    (h : d.get? key = e.get? key) : (setAll writes d).get? key = (setAll writes e).get? key := by
  induction writes generalizing d e with
  | nil => exact h
  | cons w rest ih =>
      apply ih
      rw [get?_setIf, get?_setIf, h]

theorem get?_setAll_of_not_mem {writes : List Write} {key : String}
    (h : key ∉ writes.map (·.1)) (d : Document) : (setAll writes d).get? key = d.get? key := by
  induction writes generalizing d with
  | nil => rfl
  | cons w rest ih =>
      rw [List.map_cons, List.mem_cons, not_or] at h
      have hlater := ih h.2 (setIf d w.1 w.2)
      rwa [get?_setIf, if_neg (Ne.symm h.1)] at hlater

/-- A field that is not written may be removed before or after. -/
theorem get?_remove_setAll {writes : List Write} {gone : String}
    (h : gone ∉ writes.map (·.1)) (d : Document) (key : String) :
    ((setAll writes d).remove gone).get? key = (setAll writes (d.remove gone)).get? key := by
  rw [Document.get?_remove]
  split
  · rename_i hkey
    rw [← hkey, get?_setAll_of_not_mem h, Document.get?_remove, if_pos rfl]
  · rename_i hkey
    apply get?_setAll_congr
    rw [Document.get?_remove, if_neg hkey]

/-- Of writes to different fields each has its effect. -/
theorem get?_setAll {writes : List Write} (hkeys : (writes.map (·.1)).Nodup) {w : Write}
    (hw : w ∈ writes) (d : Document) :
    (setAll writes d).get? w.1 = w.2.or (d.get? w.1) := by
  induction writes generalizing d with
  | nil => cases hw
  | cons first rest ih =>
      rw [List.map_cons, List.nodup_cons] at hkeys
      rcases List.mem_cons.mp hw with rfl | hlater
      · -- No later write touches the key again.
        have hkept := get?_setAll_of_not_mem hkeys.1 (setIf d w.1 w.2)
        rwa [get?_setIf, if_pos rfl] at hkept
      · have hother : first.1 ≠ w.1 := by
          intro hsame
          apply hkeys.1
          rw [hsame]
          exact List.mem_map_of_mem hlater
        have hrest := ih hkeys.2 hlater (setIf d first.1 first.2)
        rwa [get?_setIf, if_neg hother] at hrest

/-- Writes to some keys, each with its value. -/
def writesTo (keys : List String) (value : String → Option Json) : List Write :=
  keys.map fun key => (key, value key)

theorem map_fst_writesTo (keys : List String) (value : String → Option Json) :
    (writesTo keys value).map (·.1) = keys :=
  List.map_map.trans (List.map_id _)

theorem mem_writesTo {keys : List String} {value : String → Option Json} {key : String}
    (h : key ∈ keys) : (key, value key) ∈ writesTo keys value :=
  List.mem_map_of_mem h

theorem foldl_setIf_eq (keys : List String) (value : String → Option Json) (d : Document) :
    keys.foldl (fun d key => setIf d key (value key)) d = setAll (writesTo keys value) d := by
  unfold setAll writesTo
  rw [List.foldl_map]

/-- The submitted texts of some fields. -/
def textWrites (fields : FormFields) (keys : List String) : List Write :=
  writesTo keys fun key => (fields.value? key).map Json.str

/-- The submitted switches of some fields. -/
def flagWrites (fields : FormFields) (keys : List String) : List Write :=
  writesTo keys fun key => (fields.flag? key).map Json.bool

theorem overlayTexts_eq (fields : FormFields) (keys : List String) (d : Document) :
    overlayTexts fields keys d = setAll (textWrites fields keys) d :=
  foldl_setIf_eq keys _ d

theorem overlayFlags_eq (fields : FormFields) (keys : List String) (d : Document) :
    overlayFlags fields keys d = setAll (flagWrites fields keys) d :=
  foldl_setIf_eq keys _ d

/-! ## Writes to members -/

namespace Overlaid

/-- Make all writes to the members. -/
def setAll (writes : List Write) (o : Overlaid) : Overlaid :=
  writes.foldl (fun o w => o.setIf w.1 w.2) o

theorem members_setAll (writes : List Write) (o : Overlaid) :
    (o.setAll writes).members = (Submission.setAll writes ⟨o.members⟩).fields := by
  induction writes generalizing o with
  | nil => rfl
  | cons w rest ih =>
      obtain ⟨key, value⟩ := w
      cases value with
      | none => exact ih o
      | some v => exact ih ⟨Json.insert o.members key v, true⟩

theorem lookup?_setAll {writes : List Write} (hkeys : (writes.map (·.1)).Nodup) {w : Write}
    (hw : w ∈ writes) (o : Overlaid) :
    Json.lookup? (o.setAll writes).members w.1 = w.2.or (Json.lookup? o.members w.1) := by
  rw [members_setAll]
  exact get?_setAll hkeys hw ⟨o.members⟩

/-- Members that were not touched are the same as before. -/
theorem members_of_not_touched {writes : List Write} {o : Overlaid}
    (h : (o.setAll writes).touched = false) :
    (o.setAll writes).members = o.members ∧ o.touched = false := by
  induction writes generalizing o with
  | nil => exact ⟨rfl, h⟩
  | cons w rest ih =>
      obtain ⟨key, value⟩ := w
      cases value with
      | none => exact ih h
      | some v => cases (ih h).2

theorem get?_store {o : Overlaid} {d : Document} {key other : String} (h : key ≠ other) :
    (o.store d key).get? other = d.get? other := by
  unfold store
  split
  · rw [Document.get?_set, if_neg h]
  · rfl

theorem membersAt_set (d : Document) (key : String) (members : Json.Members) :
    membersAt (d.set key (.obj members)) key = members := by
  have hset := d.get?_set key key (.obj members)
  rw [if_pos rfl, Document.get?] at hset
  rw [membersAt, Document.members?, Json.membersAt?, hset]
  rfl

/-- Put back under the key they were taken from, the members are found there. -/
theorem membersAt_store (writes : List Write) (d : Document) (key : String) :
    membersAt ((setAll writes ⟨membersAt d key, false⟩).store d key) key =
      (setAll writes ⟨membersAt d key, false⟩).members := by
  unfold store
  split
  · exact membersAt_set d key _
  · rename_i huntouched
    exact (members_of_not_touched (eq_false_of_ne_true huntouched)).1.symm

end Overlaid

/-! ## Values that are read first -/

/-- The value of an accepted field; a refused one has none. -/
def accepted? {α : Type} : Except BlockError (Option α) → Option α
  | .ok value => value
  | .error _ => none

/-- Reading each value right before it is written makes no difference to a form in
which all of them are accepted. -/
theorem setAll_of_foldlM {α β : Type} {read : α → Except BlockError (Option β)}
    {key : α → String} {encode : β → Json} {items : List α} {o out : Overlaid}
    (h : items.foldlM
      (fun (o : Overlaid) a => return o.setIf (key a) ((← read a).map encode)) o = .ok out) :
    (∀ a ∈ items, ∃ value, read a = .ok value) ∧
      out = o.setAll (items.map fun a => (key a, (accepted? (read a)).map encode)) := by
  induction items generalizing o with
  | nil => exact ⟨fun a ha => absurd ha List.not_mem_nil, (Except.ok.inj h).symm⟩
  | cons a rest ih =>
      rw [List.foldlM_cons] at h
      -- What is read does not depend on what was set before it.
      obtain ⟨next, hnext, hrest⟩ := bind_eq_ok.mp h
      obtain ⟨value, hvalue, hset⟩ := bind_eq_ok.mp hnext
      obtain ⟨hall, hout⟩ := ih hrest
      constructor
      · intro b hb
        rcases List.mem_cons.mp hb with rfl | hb
        · exact ⟨value, hvalue⟩
        · exact hall b hb
      · rw [hout, ← Except.ok.inj hset, List.map_cons, hvalue]
        rfl

/-! ## The fields of the rules -/

/-- The submitted playlists, if there are any. -/
def playlists? (fields : FormFields) : Option Json :=
  if (fields.values "sourcePlaylists").isEmpty then none
  else some (.arr ((fields.values "sourcePlaylists").map Json.str))

/-- The submitted values that are neither a plain text nor a switch. -/
def valueWrites (fields : FormFields) : List Write :=
  [("targetMinutes", (accepted? (targetMinutes? fields)).map Json.int),
    ("durationAccuracy", (accepted? (fields.whole? "durationAccuracy")).map Json.int),
    ("bpmRange", rangeOf? ((accepted? (fields.number? "bpmMin")).map Json.real)
      ((accepted? (fields.number? "bpmMax")).map Json.real)),
    ("yearRange", rangeOf? ((accepted? (fields.whole? "yearMin")).map Json.int)
      ((accepted? (fields.whole? "yearMax")).map Json.int)),
    ("sourcePlaylists", playlists? fields)]

/-- What a form writes into the rules outside of the separation and the
interstitials. -/
def filterWrites (fields : FormFields) : List Write :=
  textWrites fields textKeys ++ valueWrites fields ++ flagWrites fields flagKeys

/-- The older name of the playlists gives way to submitted ones. -/
def withoutAlias (fields : FormFields) (rules : Document) : Document :=
  if (fields.values "sourcePlaylists").isEmpty then rules else rules.remove "source_playlists"

theorem get?_withoutAlias {fields : FormFields} {rules : Document} {key : String}
    (h : key ≠ "source_playlists") : (withoutAlias fields rules).get? key = rules.get? key := by
  unfold withoutAlias
  split
  · rfl
  · rw [Document.get?_remove, if_neg (Ne.symm h)]

theorem map_fst_filterWrites (fields : FormFields) :
    (filterWrites fields).map (·.1) =
      textKeys ++ ["targetMinutes", "durationAccuracy", "bpmRange", "yearRange",
        "sourcePlaylists"] ++ flagKeys := by
  rw [filterWrites, textWrites, flagWrites, List.map_append, List.map_append, map_fst_writesTo,
    map_fst_writesTo]
  rfl

/-- An accepted form makes its writes after the older name has given way. -/
theorem overlayFilters_eq {fields : FormFields} {rules out : Document}
    (h : overlayFilters fields rules = .ok out) :
    (∃ minutes, targetMinutes? fields = .ok minutes) ∧ ∀ key, out.get? key =
      (setAll (filterWrites fields) (withoutAlias fields rules)).get? key := by
  unfold overlayFilters at h
  obtain ⟨minutes, hminutes, h⟩ := bind_eq_ok.mp h
  obtain ⟨seconds, hseconds, h⟩ := bind_eq_ok.mp h
  obtain ⟨slowest, hslowest, h⟩ := bind_eq_ok.mp h
  obtain ⟨fastest, hfastest, h⟩ := bind_eq_ok.mp h
  obtain ⟨earliest, hearliest, h⟩ := bind_eq_ok.mp h
  obtain ⟨latest, hlatest, h⟩ := bind_eq_ok.mp h
  refine ⟨⟨minutes, hminutes⟩, fun key => ?_⟩
  simp only [overlayTexts_eq, overlayFlags_eq, Except.ok.injEq] at h
  rw [← h]
  -- The writes before the playlists, which are the same in both cases.
  let before : List Write := textWrites fields textKeys ++
    [("targetMinutes", minutes.map Json.int), ("durationAccuracy", seconds.map Json.int),
      ("bpmRange", rangeOf? (slowest.map Json.real) (fastest.map Json.real)),
      ("yearRange", rangeOf? (earliest.map Json.int) (latest.map Json.int))]
  have hwrites : filterWrites fields =
      before ++ [("sourcePlaylists", playlists? fields)] ++ flagWrites fields flagKeys := by
    rw [filterWrites, valueWrites, hminutes, hseconds, hslowest, hfastest, hearliest, hlatest]
    rfl
  have hbefore : "source_playlists" ∉ before.map (·.1) := by
    rw [List.map_append, textWrites, map_fst_writesTo]
    simp only [List.map_cons, List.map_nil]
    decide
  rw [hwrites, setAll_append, setAll_append]
  apply get?_setAll_congr
  by_cases hnone : (fields.values "sourcePlaylists").isEmpty = true
  · rw [if_pos hnone, playlists?, if_pos hnone, withoutAlias, if_pos hnone]
    change _ = (setAll before rules).get? key
    rw [setAll_append]
    rfl
  · rw [if_neg hnone, playlists?, if_neg hnone, withoutAlias, if_neg hnone]
    change _ = ((setAll before (rules.remove "source_playlists")).set "sourcePlaylists" _).get? key
    rw [Document.get?_set, Document.get?_set, ← get?_remove_setAll hbefore, setAll_append]
    rfl

/-! ## Separation, interstitials and the sequence -/

/-- The submitted gaps, by the names of the attributes. -/
def gapWrites (fields : FormFields) : List Write :=
  Attribute.separable.map fun a => (a.name, (accepted? (gap? fields a)).map Json.real)

/-- What a form writes into the interstitials. -/
def breakWrites (fields : FormFields) : List Write :=
  ("enabled", (fields.flag? "ads_enabled").map Json.bool) ::
    (sourceKeys.map fun source => (source.2, (fields.value? source.1).map Json.str)) ++
      countKeys.map fun count => (count.2, (accepted? (count? fields count.1)).map Json.int)

/-- What a form writes into the sequence settings. -/
def sequenceWrites (fields : FormFields) : List Write :=
  textWrites fields ["mode"] ++ flagWrites fields ["energyEnabled"] ++
    [("energyCurve", accepted? (energyCurve? fields))]

theorem overlaySeparation_eq {fields : FormFields} {rules out : Document}
    (h : overlaySeparation fields rules = .ok out) :
    (∀ a ∈ Attribute.separable, ∃ minutes, gap? fields a = .ok minutes) ∧
      out = (Overlaid.setAll (gapWrites fields)
        ⟨membersAt (setAll (flagWrites fields ["separationEnabled"]) rules) "separation", false⟩).store
          (setAll (flagWrites fields ["separationEnabled"]) rules) "separation" := by
  unfold overlaySeparation at h
  rw [overlayFlags_eq] at h
  obtain ⟨overlaid, hfold, hout⟩ := bind_eq_ok.mp h
  obtain ⟨haccepted, hwritten⟩ := setAll_of_foldlM hfold
  refine ⟨haccepted, ?_⟩
  rw [← Except.ok.inj hout, hwritten]
  rfl

theorem overlayBreaks_eq {fields : FormFields} {rules out : Document}
    (h : overlayBreaks fields rules = .ok out) :
    (∀ count ∈ countKeys, ∃ n, count? fields count.1 = .ok n) ∧
      out = (Overlaid.setAll (breakWrites fields) ⟨membersAt rules "interstitials", false⟩).store
        rules "interstitials" := by
  unfold overlayBreaks at h
  obtain ⟨overlaid, hfold, hout⟩ := bind_eq_ok.mp h
  obtain ⟨haccepted, hwritten⟩ := @setAll_of_foldlM (String × String) _ _ (·.2) _ _ _ _ hfold
  refine ⟨haccepted, ?_⟩
  rw [← Except.ok.inj hout, hwritten]
  rfl

theorem overlaySequence_eq {fields : FormFields} {sequence out : Document}
    (h : overlaySequence fields sequence = .ok out) :
    (∃ curve, energyCurve? fields = .ok curve) ∧ out = setAll (sequenceWrites fields) sequence := by
  unfold overlaySequence at h
  obtain ⟨curve, hcurve, hout⟩ := bind_eq_ok.mp h
  refine ⟨⟨curve, hcurve⟩, ?_⟩
  rw [← Except.ok.inj hout, sequenceWrites, hcurve, setAll_append, setAll_append,
    overlayTexts_eq, overlayFlags_eq]
  rfl

/-! ## The whole form -/

/-- What an accepted form leaves in its documents, and that the values which are
judged were accepted. -/
structure Written (fields : FormFields) (rules sequence : Document) (s : Submission) : Prop where
  minutes : ∃ minutes, targetMinutes? fields = .ok minutes
  gaps : ∀ a ∈ Attribute.separable, ∃ minutes, gap? fields a = .ok minutes
  counts : ∀ count ∈ countKeys, ∃ n, count? fields count.1 = .ok n
  curve : ∃ curve, energyCurve? fields = .ok curve
  filters : ∀ w ∈ filterWrites fields, s.rules.get? w.1 = w.2.or (rules.get? w.1)
  separationEnabled : s.rules.get? "separationEnabled" =
    ((fields.flag? "separationEnabled").map Json.bool).or (rules.get? "separationEnabled")
  separation : ∀ w ∈ gapWrites fields, Json.lookup? (membersAt s.rules "separation") w.1 =
    w.2.or (Json.lookup? (membersAt rules "separation") w.1)
  breaks : ∀ w ∈ breakWrites fields, Json.lookup? (membersAt s.rules "interstitials") w.1 =
    w.2.or (Json.lookup? (membersAt rules "interstitials") w.1)
  sequence : ∀ w ∈ sequenceWrites fields, s.sequence.get? w.1 = w.2.or (sequence.get? w.1)

theorem membersAt_congr {d e : Document} {key : String} (h : d.get? key = e.get? key) :
    membersAt d key = membersAt e key := by
  unfold Document.get? at h
  rw [membersAt, membersAt, Document.members?, Document.members?, Json.membersAt?, Json.membersAt?,
    h]

theorem map_fst_gapWrites (fields : FormFields) :
    (gapWrites fields).map (·.1) = Attribute.separable.map Attribute.name :=
  List.map_map

theorem map_fst_breakWrites (fields : FormFields) :
    (breakWrites fields).map (·.1) = "enabled" :: sourceKeys.map (·.2) ++ countKeys.map (·.2) := rfl

theorem map_fst_sequenceWrites (fields : FormFields) :
    (sequenceWrites fields).map (·.1) = ["mode", "energyEnabled", "energyCurve"] := rfl

section Rules

variable {fields : FormFields} {rules filtered separated broken : Document}
  (hfiltered : overlayFilters fields rules = .ok filtered)
  (hseparated : overlaySeparation fields filtered = .ok separated)
  (hbroken : overlayBreaks fields separated = .ok broken)

include hfiltered in
/-- The filters leave alone what they do not write. -/
theorem get?_filtered_of_not_mem {key : String} (hkey : key ∉ (filterWrites fields).map (·.1))
    (halias : key ≠ "source_playlists") : filtered.get? key = rules.get? key := by
  rw [(overlayFilters_eq hfiltered).2, get?_setAll_of_not_mem hkey,
    get?_withoutAlias halias]

include hseparated in
theorem get?_separated {key : String} (hkey : key ≠ "separation") :
    separated.get? key =
      (setAll (flagWrites fields ["separationEnabled"]) filtered).get? key := by
  rw [(overlaySeparation_eq hseparated).2, Overlaid.get?_store (Ne.symm hkey)]

include hbroken in
theorem get?_broken {key : String} (hkey : key ≠ "interstitials") :
    broken.get? key = separated.get? key := by
  rw [(overlayBreaks_eq hbroken).2, Overlaid.get?_store (Ne.symm hkey)]

include hfiltered in
/-- Nor does the switch of the separation touch anything else. -/
theorem get?_switched {key : String} (hkey : key ∉ (filterWrites fields).map (·.1))
    (halias : key ≠ "source_playlists") (hswitch : key ≠ "separationEnabled") :
    (setAll (flagWrites fields ["separationEnabled"]) filtered).get? key = rules.get? key := by
  rw [get?_setAll_of_not_mem (by rw [flagWrites, map_fst_writesTo]; simpa using hswitch),
    get?_filtered_of_not_mem hfiltered hkey halias]

include hfiltered hseparated hbroken

theorem get?_filter {w : Write} (hw : w ∈ filterWrites fields) :
    broken.get? w.1 = w.2.or (rules.get? w.1) := by
  have hkey : w.1 ∈ (filterWrites fields).map (·.1) := List.mem_map_of_mem hw
  have hdistinct : ((filterWrites fields).map (·.1)).Nodup := by
    rw [map_fst_filterWrites]
    decide
  have hothers : ∀ key ∈ (filterWrites fields).map (·.1), key ≠ "separation" ∧
      key ≠ "interstitials" ∧ key ≠ "separationEnabled" ∧ key ≠ "source_playlists" := by
    rw [map_fst_filterWrites]
    decide
  obtain ⟨hseparation, hbreaks, hswitch, halias⟩ := hothers w.1 hkey
  calc
    broken.get? w.1 = separated.get? w.1 := get?_broken hbroken hbreaks
    _ = (setAll (flagWrites fields ["separationEnabled"]) filtered).get? w.1 :=
      get?_separated hseparated hseparation
    _ = filtered.get? w.1 :=
      get?_setAll_of_not_mem (by rw [flagWrites, map_fst_writesTo]; simpa using hswitch) filtered
    _ = (setAll (filterWrites fields) (withoutAlias fields rules)).get? w.1 :=
      (overlayFilters_eq hfiltered).2 w.1
    _ = w.2.or ((withoutAlias fields rules).get? w.1) := get?_setAll hdistinct hw _
    _ = w.2.or (rules.get? w.1) := by rw [get?_withoutAlias halias]

theorem get?_separationEnabled :
    broken.get? "separationEnabled" =
      ((fields.flag? "separationEnabled").map Json.bool).or (rules.get? "separationEnabled") := by
  have hwrite : (setAll (flagWrites fields ["separationEnabled"]) filtered).get?
      "separationEnabled" = ((fields.flag? "separationEnabled").map Json.bool).or
        (filtered.get? "separationEnabled") :=
    @get?_setAll (flagWrites fields ["separationEnabled"]) (List.nodup_singleton _)
      ("separationEnabled", _) (List.mem_singleton_self _) filtered
  rw [get?_broken hbroken (by decide), get?_separated hseparated (by decide), hwrite,
    get?_filtered_of_not_mem hfiltered (by rw [map_fst_filterWrites]; decide) (by decide)]

theorem lookup?_separation {w : Write} (hw : w ∈ gapWrites fields) :
    Json.lookup? (membersAt broken "separation") w.1 =
      w.2.or (Json.lookup? (membersAt rules "separation") w.1) := by
  have hdistinct : ((gapWrites fields).map (·.1)).Nodup := by
    rw [map_fst_gapWrites]
    decide
  have hbefore : membersAt (setAll (flagWrites fields ["separationEnabled"]) filtered)
      "separation" = membersAt rules "separation" :=
    membersAt_congr (get?_switched hfiltered (by rw [map_fst_filterWrites]; decide) (by decide)
      (by decide))
  rw [membersAt_congr (get?_broken hbroken (by decide)), (overlaySeparation_eq hseparated).2,
    Overlaid.membersAt_store, Overlaid.lookup?_setAll hdistinct hw, hbefore]

theorem lookup?_interstitials {w : Write} (hw : w ∈ breakWrites fields) :
    Json.lookup? (membersAt broken "interstitials") w.1 =
      w.2.or (Json.lookup? (membersAt rules "interstitials") w.1) := by
  have hdistinct : ((breakWrites fields).map (·.1)).Nodup := by
    rw [map_fst_breakWrites]
    decide
  have hbefore : membersAt separated "interstitials" = membersAt rules "interstitials" := by
    apply membersAt_congr
    rw [get?_separated hseparated (by decide)]
    exact get?_switched hfiltered (by rw [map_fst_filterWrites]; decide) (by decide) (by decide)
  rw [(overlayBreaks_eq hbroken).2, Overlaid.membersAt_store,
    Overlaid.lookup?_setAll hdistinct hw, hbefore]

end Rules

/-- An accepted form went through all of its stages. -/
theorem exists_stages_of_read {fields : FormFields} {s : Submission} (h : read fields = .ok s) :
    ∃ rules sequence filtered separated, document fields "rules" = .ok rules ∧
      document fields "sequence" = .ok sequence ∧ overlayFilters fields rules = .ok filtered ∧
      overlaySeparation fields filtered = .ok separated ∧
      overlayBreaks fields separated = .ok s.rules ∧
      overlaySequence fields sequence = .ok s.sequence := by
  unfold read at h
  split at h
  · cases h
  · obtain ⟨rules, hrules, h⟩ := bind_eq_ok.mp h
    obtain ⟨sequence, hsequence, h⟩ := bind_eq_ok.mp h
    obtain ⟨filtered, hfiltered, h⟩ := bind_eq_ok.mp h
    obtain ⟨separated, hseparated, h⟩ := bind_eq_ok.mp h
    obtain ⟨broken, hbroken, h⟩ := bind_eq_ok.mp h
    obtain ⟨settings, hsettings, h⟩ := bind_eq_ok.mp h
    rw [← Except.ok.inj h]
    exact ⟨rules, sequence, filtered, separated, hrules, hsequence, hfiltered, hseparated,
      hbroken, hsettings⟩

theorem written_of_read {fields : FormFields} {s : Submission} (h : read fields = .ok s) :
    ∃ rules sequence, document fields "rules" = .ok rules ∧
      document fields "sequence" = .ok sequence ∧ Written fields rules sequence s := by
  obtain ⟨rules, sequence, filtered, separated, hrules, hsequence, hfiltered, hseparated,
    hbroken, hsettings⟩ := exists_stages_of_read h
  refine ⟨rules, sequence, hrules, hsequence, {
    minutes := (overlayFilters_eq hfiltered).1
    gaps := (overlaySeparation_eq hseparated).1
    counts := (overlayBreaks_eq hbroken).1
    curve := (overlaySequence_eq hsettings).1
    filters := fun w hw => get?_filter hfiltered hseparated hbroken hw
    separationEnabled := get?_separationEnabled hfiltered hseparated hbroken
    separation := fun w hw => lookup?_separation hfiltered hseparated hbroken hw
    breaks := fun w hw => lookup?_interstitials hfiltered hseparated hbroken hw
    sequence := ?_ }⟩
  intro w hw
  rw [(overlaySequence_eq hsettings).2]
  exact get?_setAll (by rw [map_fst_sequenceWrites]; decide) hw sequence

end Rundown.Submission
