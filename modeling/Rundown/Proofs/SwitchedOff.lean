import Mathlib.Data.List.Forall2
import Rundown.Proofs.PlanFields

/-!
# What is switched off

Two pairs of documents describe the same plan if they hold the same wherever the plan
looks.  It does not look at a feature whose switch is off, at the rhythm of breaks for
which there is no source, nor at a key of any other name, in the documents or in the
objects within them.  So what a dashboard keeps of a feature that was switched off has no
effect, whatever it is.

Switches are compared by whether they are on, and objects by the members that are read; a
value that is no object is compared as one without members.
-/

namespace Rundown

namespace Json

/-- Two objects hold the same under some keys. -/
def SameAt (keys : List String) (first second : Members) : Prop :=
  ∀ key ∈ keys, lookup? first key = lookup? second key

/-- Two values are equal, or objects that hold the same bounds. -/
inductive SameRange : Option Json → Option Json → Prop where
  | same (value : Option Json) : SameRange value value
  | bounds {first second : Members} (h : SameAt ["min", "max"] first second) :
      SameRange (some (.obj first)) (some (.obj second))

/-- Two lists of objects hold the same under some keys, entry for entry. -/
def SameEntries (keys : List String) (first second : List Json) : Prop :=
  List.Forall₂ (fun a b => SameAt keys (a.members?.getD []) (b.members?.getD [])) first second

variable {first second : Members} {keys : List String}

theorem SameAt.mono (h : SameAt keys first second) (part : List String) (hpart : part ⊆ keys) :
    SameAt part first second :=
  fun key hkey => h key (hpart hkey)

theorem labelAt?_congr {key : String} (h : lookup? first key = lookup? second key) :
    labelAt? first key = labelAt? second key := by
  rw [labelAt?, labelAt?, h]

theorem wholeAt?_congr {key : String} (h : lookup? first key = lookup? second key) :
    wholeAt? first key = wholeAt? second key := by
  rw [wholeAt?, wholeAt?, h]

theorem SameAt.findSome?_eq {β : Type} (h : SameAt keys first second)
    (read : Option Json → Option β) :
    keys.findSome? (fun key => read (lookup? first key)) =
      keys.findSome? fun key => read (lookup? second key) := by
  induction keys with
  | nil => rfl
  | cons key rest ih =>
      rw [List.findSome?_cons, List.findSome?_cons, h key List.mem_cons_self,
        ih fun k hk => h k (List.mem_cons_of_mem key hk)]

/-- A reader of objects that looks at some keys only reads the same from both lists. -/
theorem SameEntries.filterMap_eq {β : Type} {items others : List Json} {read? : Json → Option β}
    (h : SameEntries keys items others)
    (hobject : ∀ entry : Json, read? entry = read? (.obj (entry.members?.getD [])))
    (hread : ∀ first second, SameAt keys first second → read? (.obj first) = read? (.obj second)) :
    items.filterMap read? = others.filterMap read? := by
  induction h with
  | nil => rfl
  | @cons a b _ _ hentry _ ih =>
      rw [List.filterMap_cons, List.filterMap_cons, hobject a, hobject b, hread _ _ hentry, ih]

end Json

namespace Plan

open Json

/-! ## Where a plan looks -/

/-- The keys of the rules whose values are read wherever they stand. -/
def valueKeys : List String :=
  ["targetMinutes", "durationAccuracy"] ++ criteriaKeys

/-- The switches of the rules. -/
def switchKeys : List String :=
  ["excludeExplicit", "allowRepeats", "separationEnabled", "quotasEnabled", "fallbacksEnabled"]

/-- The members of a quota that are read. -/
def quotaKeys : List String :=
  ["field", "value", "minPct", "min_pct", "maxPct", "max_pct"]

/-- The members of a fallback that are read. -/
def fallbackEntryKeys : List String :=
  ["blockID", "blockId", "smart_block_id", "limit"]

/-- The members of the interstitials that describe their source. -/
def breakSourceKeys : List String :=
  ["sourceType", "source_type", "playlistID", "playlistId", "playlist_id", "genre", "query"]

/-- The interstitials are switched on together, and then they have the same source; the
rhythm is the same if there is a source. -/
structure SameBreaks (first second : Json.Members) : Prop where
  enabled : truthAt first "enabled" = truthAt second "enabled"
  source : truthAt first "enabled" = true → SameAt breakSourceKeys first second
  rhythm : truthAt first "enabled" = true → (breakSourceOf? first).isSome = true →
    SameAt ["every", "perBreak"] first second

/-- Two documents of rules hold the same wherever a plan looks. -/
structure SameRules (rules other : Document) : Prop where
  values : ∀ key ∈ valueKeys, rules.get? key = other.get? key
  ranges : ∀ key ∈ rangeKeys, SameRange (rules.get? key) (other.get? key)
  switches : ∀ key ∈ switchKeys, rules.truth key = other.truth key
  separation : rules.truth "separationEnabled" = true →
    SameAt ["artist", "title", "album", "label"] ((rules.members? "separation").getD [])
      ((other.members? "separation").getD [])
  quotas : rules.truth "quotasEnabled" = true →
    SameEntries quotaKeys (rules.items "quotas") (other.items "quotas")
  fallbacks : rules.truth "fallbacksEnabled" = true →
    SameEntries fallbackEntryKeys (rules.items "fallbacks") (other.items "fallbacks")
  breaks : SameBreaks ((rules.members? "interstitials").getD [])
    ((other.members? "interstitials").getD [])

/-- Two documents of sequence settings hold the same wherever a plan looks. -/
structure SameSettings (sequence other : Document) : Prop where
  mode : sequence.get? "mode" = other.get? "mode"
  energyEnabled : sequence.truth "energyEnabled" = other.truth "energyEnabled"
  energyCurve : sequence.truth "energyEnabled" = true →
    sequence.get? "energyCurve" = other.get? "energyCurve"

/-! ## Values, bounds and switches -/

variable {rules other : Document}

theorem bounds_obj_congr {first second : Members} (h : SameAt ["min", "max"] first second) :
    Json.bounds (.obj first) = Json.bounds (.obj second) := by
  simp only [Json.bounds]
  rw [h "min" (by decide), h "max" (by decide)]

theorem boundsAt?_congr {key : String} (h : SameRange (rules.get? key) (other.get? key)) :
    boundsAt? rules key = boundsAt? other key := by
  rw [boundsAt?_eq, boundsAt?_eq]
  generalize rules.get? key = value at h
  generalize other.get? key = value' at h
  cases h with
  | same => rfl
  | bounds hbounds => rw [Option.map_some, Option.map_some, bounds_obj_congr hbounds]

theorem SameRules.criteriaOf_eq (h : SameRules rules other) (year : Int) :
    criteriaOf rules year = criteriaOf other year :=
  criteriaOf_congr (fun key hkey => h.values key (List.mem_append_right _ hkey))
    (fun key hkey => boundsAt?_congr (h.ranges key hkey))
    (h.switches "excludeExplicit" (by decide)) year

/-! ## Features with a switch -/

theorem gapAt?_congr {first second : Members} {a : Attribute}
    (h : lookup? first a.name = lookup? second a.name) : gapAt? first a = gapAt? second a := by
  rw [gapAt?, gapAt?, h]

theorem SameRules.separationOf_eq (h : SameRules rules other) :
    separationOf rules = separationOf other := by
  have hswitch := h.switches "separationEnabled" (by decide)
  by_cases hon : rules.truth "separationEnabled" = true
  · have hnames : ∀ a ∈ Attribute.separable, a.name ∈ ["artist", "title", "album", "label"] := by
      decide
    rw [Plan.separationOf_eq, Plan.separationOf_eq, ← hswitch, if_pos hon, if_pos hon]
    apply List.filterMap_congr
    intro a ha
    rw [gapAt?_congr (h.separation hon a.name (hnames a ha))]
  · have hoff := eq_false_of_ne_true hon
    rw [separationOf_of_off hoff, separationOf_of_off (hswitch ▸ hoff)]

theorem shareAt?_congr {first second : Members} {keys : List String}
    (h : SameAt keys first second) : shareAt? first keys = shareAt? second keys := by
  unfold shareAt?
  rw [h.findSome?_eq fun value => value.bind Json.number?]

theorem labelUnder?_congr {first second : Members} {keys : List String}
    (h : SameAt keys first second) : labelUnder? first keys = labelUnder? second keys :=
  h.findSome?_eq fun value => value.bind Json.label?

/-- An entry that is no object describes as little as one without members. -/
theorem quotaOf?_eq (entry : Json) : quotaOf? entry = quotaOf? (.obj (entry.members?.getD [])) := by
  cases entry <;> rfl

theorem quotaOf?_congr {first second : Members} (h : SameAt quotaKeys first second) :
    quotaOf? (.obj first) = quotaOf? (.obj second) := by
  simp only [quotaOf?, members?, Option.bind_eq_bind, Option.bind_some]
  rw [labelAt?_congr (h "field" (by decide)), labelAt?_congr (h "value" (by decide)),
    shareAt?_congr (h.mono ["minPct", "min_pct"] (by decide)),
    shareAt?_congr (h.mono ["maxPct", "max_pct"] (by decide))]

theorem SameRules.quotasOf_eq (h : SameRules rules other) : quotasOf rules = quotasOf other := by
  unfold quotasOf
  rw [← h.switches "quotasEnabled" (by decide)]
  split
  · rename_i hon
    exact (h.quotas hon).filterMap_eq quotaOf?_eq fun _ _ => quotaOf?_congr
  · rfl

theorem fallbackOf?_eq (entry : Json) :
    fallbackOf? entry = fallbackOf? (.obj (entry.members?.getD [])) := by
  cases entry <;> rfl

theorem fallbackOf?_congr {first second : Members} (h : SameAt fallbackEntryKeys first second) :
    fallbackOf? (.obj first) = fallbackOf? (.obj second) := by
  simp only [fallbackOf?, members?, Option.bind_eq_bind, Option.bind_some]
  rw [labelUnder?_congr (h.mono ["blockID", "blockId", "smart_block_id"] (by decide)),
    wholeAt?_congr (h "limit" (by decide))]

theorem SameRules.fallbacksOf_eq (h : SameRules rules other) :
    fallbacksOf rules = fallbacksOf other := by
  unfold fallbacksOf
  rw [← h.switches "fallbacksEnabled" (by decide)]
  split
  · rename_i hon
    exact (h.fallbacks hon).filterMap_eq fallbackOf?_eq fun _ _ => fallbackOf?_congr
  · rfl

/-! ## Breaks and energy -/

theorem breakSourceOf?_congr {first second : Members} (h : SameAt breakSourceKeys first second) :
    breakSourceOf? first = breakSourceOf? second := by
  unfold breakSourceOf?
  rw [labelUnder?_congr (h.mono ["playlistID", "playlistId", "playlist_id"] (by decide)),
    labelUnder?_congr (h.mono ["sourceType", "source_type"] (by decide)),
    labelAt?_congr (h "genre" (by decide)), labelAt?_congr (h "query" (by decide))]

theorem countAt_congr {first second : Members} {key : String}
    (h : lookup? first key = lookup? second key) (default : Nat) :
    countAt first key default = countAt second key default := by
  rw [countAt, countAt, wholeAt?_congr h]

theorem SameRules.breaksOf_eq (h : SameRules rules other) : breaksOf rules = breaksOf other := by
  rw [Plan.breaksOf_eq, Plan.breaksOf_eq]
  obtain ⟨henabled, hsource, hrhythm⟩ := h.breaks
  generalize (rules.members? "interstitials").getD [] = first at *
  generalize (other.members? "interstitials").getD [] = second at *
  dsimp only
  rw [← henabled]
  split
  · rename_i hon
    rw [← breakSourceOf?_congr (hsource hon)]
    -- Without a source the rhythm is not read.
    cases hfound : breakSourceOf? first with
    | none => rfl
    | some source =>
        have hsame := hrhythm hon (by rw [hfound]; rfl)
        dsimp only
        rw [countAt_congr (hsame "every" (by decide)), countAt_congr (hsame "perBreak" (by decide))]
  · rfl

theorem SameSettings.energyCurveOf_eq {sequence other : Document}
    (h : SameSettings sequence other) : energyCurveOf sequence = energyCurveOf other := by
  unfold energyCurveOf
  rw [← h.energyEnabled]
  split
  · rename_i hon
    rw [items_congr (h.energyCurve hon)]
  · rfl

/-! ## The whole plan -/

/-- Documents that hold the same wherever a plan looks describe the same plan, in every
year. -/
theorem ofDocuments_eq_of_same {rules rules' sequence sequence' : Document}
    (hrules : SameRules rules rules') (hsequence : SameSettings sequence sequence') (year : Int) :
    ofDocuments rules sequence year = ofDocuments rules' sequence' year := by
  have htarget : targetMinutes rules = targetMinutes rules' := by
    rw [targetMinutes, targetMinutes, whole?_congr (hrules.values "targetMinutes" (by decide))]
  have haccuracy : accuracySeconds rules = accuracySeconds rules' := by
    rw [accuracySeconds, accuracySeconds,
      whole?_congr (hrules.values "durationAccuracy" (by decide))]
  unfold ofDocuments
  rw [htarget, haccuracy, hrules.criteriaOf_eq, hrules.breaksOf_eq, hrules.separationOf_eq,
    hrules.switches "separationEnabled" (by decide), hrules.quotasOf_eq, hrules.fallbacksOf_eq,
    hrules.switches "allowRepeats" (by decide), hsequence.energyCurveOf_eq,
    label?_congr hsequence.mode]

/-- Rules that keep what was set for features that are off, a rhythm without a source, and
names that nothing reads, one of them within a quota. -/
def keptRules : Document :=
  ⟨[("genre", .str "Rock"), ("separation", .obj [("artist", .int 30)]),
    ("quotasEnabled", .str "yes"),
    ("quotas", .arr [.obj [("field", .str "genre"), ("note", .null), ("value", .str "Rock")]]),
    ("fallbacks", .arr [.obj [("blockID", .str "night")]]),
    ("interstitials", .obj [("enabled", .bool true), ("sourceType", .str "genre"),
      ("every", .int 2)]),
    ("weights", .obj [("genre", .int 3)])]⟩

/-- The same rules without these. -/
def clearedRules : Document :=
  ⟨[("genre", .str "Rock"), ("separationEnabled", .str "off"), ("quotasEnabled", .bool true),
    ("quotas", .arr [.obj [("field", .str "genre"), ("value", .str "Rock")]]),
    ("interstitials", .obj [("enabled", .int 1), ("sourceType", .str "genre")])]⟩

/-- Settings with a curve that is not in force. -/
def keptSettings : Document :=
  ⟨[("energyCurve", .arr [.int 20, .int 80]), ("energyEnabled", .int 0)]⟩

/-- Nothing of what was kept shows in the plan. -/
theorem ofDocuments_eq_of_same_sample :
    SameRules keptRules clearedRules ∧ SameSettings keptSettings .empty ∧
      ofDocuments keptRules keptSettings 2026 = ofDocuments clearedRules .empty 2026 := by
  have hrules : SameRules keptRules clearedRules := {
    values := by
      simp only [valueKeys, criteriaKeys, List.cons_append, List.nil_append, List.forall_mem_cons,
        List.not_mem_nil, false_implies, implies_true, and_true]
      and_intros <;> rfl
    ranges := by
      simp only [rangeKeys, List.forall_mem_cons, List.not_mem_nil, false_implies, implies_true,
        and_true]
      exact ⟨.same none, .same none⟩
    switches := by decide +kernel
    separation := fun hon => absurd hon (by decide +kernel)
    quotas := by
      intro _
      have hentry : SameAt quotaKeys
          [("field", .str "genre"), ("note", .null), ("value", .str "Rock")]
          [("field", .str "genre"), ("value", .str "Rock")] := by
        simp [SameAt, quotaKeys, lookup?]
      have hkept : keptRules.items "quotas" =
          [.obj [("field", .str "genre"), ("note", .null), ("value", .str "Rock")]] := rfl
      have hcleared : clearedRules.items "quotas" =
          [.obj [("field", .str "genre"), ("value", .str "Rock")]] := rfl
      rw [hkept, hcleared]
      exact .cons hentry .nil
    fallbacks := fun hon => absurd hon (by decide +kernel)
    breaks := {
      enabled := by decide +kernel
      source := fun _ => by simp [SameAt, breakSourceKeys, keptRules, clearedRules,
        Document.members?, membersAt?, members?, lookup?]
      rhythm := fun _ hsource => absurd hsource (by decide +kernel) } }
  have hsettings : SameSettings keptSettings .empty := {
    mode := rfl
    energyEnabled := by decide +kernel
    energyCurve := fun hon => absurd hon (by decide +kernel) }
  exact ⟨hrules, hsettings, ofDocuments_eq_of_same hrules hsettings 2026⟩

end Plan

end Rundown
