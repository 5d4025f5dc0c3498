import Rundown.Proofs.FirstFailure
import Rundown.Proofs.FormPlan

/-!
# Which forms are accepted

A form is accepted exactly if each of its fields meets what is asked of it.  What is
asked is one table, in the order in which the fields are looked at: the name must be
there, and every other field may be left out or blank, but must be readable when it is
there.  A form that is refused is refused for the first field of the table that does
not meet its demand.

The table says nothing of texts, switches and the playlists, since no value of theirs
is refused.  What is JSON and what is a number is left to the readers of the library.
-/

namespace Rundown

open Text

namespace Submission

/-- What is asked of the value of a field. -/
inductive Demand where
  /-- There is a value. -/
  | present
  /-- The value is the text of an object or of null. -/
  | document
  /-- The value is a whole number of 64 bits within some bounds. -/
  | whole (low high : Int)
  /-- The value is a finite number. -/
  | number
  /-- The value is a finite number that is not negative. -/
  | nonnegative
  /-- The parts between commas are whole numbers from 0 to 100. -/
  | levels
  deriving DecidableEq

/-- A value that meets a demand. -/
def Demand.Accepts : Demand → String → Prop
  | present, _ => True
  | document, text => Json.read? text = some .null ∨ ∃ members, Json.read? text = some (.obj members)
  | whole low high, text => ∃ n, readWord? text = some n ∧ low ≤ n ∧ n ≤ high
  | number, text => ∃ x, Decimal.read? text.toList = some x ∧ x.isFinite = true
  | nonnegative, text => ∃ x, Decimal.read? text.toList = some x ∧ x.isFinite = true ∧ ¬ x < 0
  | levels, text => ∀ part ∈ commaParts text, ∃ n, readWord? part = some n ∧ 0 ≤ n ∧ n ≤ 100

/-- Any whole number of 64 bits. -/
def Demand.word : Demand :=
  whole wordRange.1 wordRange.2

/-- A field and what is asked of it. -/
structure Clause where
  field : String
  demand : Demand

/-- What is asked of a form, in the order in which it is looked at. -/
def clauses : List Clause :=
  [⟨"name", .present⟩, ⟨"rules", .document⟩, ⟨"sequence", .document⟩,
    ⟨"targetMinutes", .whole 1 1440⟩, ⟨"durationAccuracy", .word⟩,
    ⟨"bpmMin", .number⟩, ⟨"bpmMax", .number⟩, ⟨"yearMin", .word⟩, ⟨"yearMax", .word⟩,
    ⟨"separation_artist", .nonnegative⟩, ⟨"separation_title", .nonnegative⟩,
    ⟨"separation_album", .nonnegative⟩, ⟨"separation_label", .nonnegative⟩,
    ⟨"ads_every", .whole 1 wordRange.2⟩, ⟨"ads_per_break", .whole 1 wordRange.2⟩,
    ⟨"energyCurve", .levels⟩]

/-- The form has an acceptable value for the field, or none where none is needed. -/
def Clause.Met (fields : FormFields) (c : Clause) : Prop :=
  match fields.value? c.field with
  | some text => c.demand.Accepts text
  | none => c.demand ≠ .present

/-- The error is that of the field: a document is reported with what is wrong with its
text, and every other field by its name. -/
def Clause.Names (fields : FormFields) (c : Clause) : BlockError → Prop
  | .invalidRules cause =>
      c.demand = .document ∧
        ∃ text, fields.value? c.field = some text ∧ Document.read text = .error cause
  | .invalidForm field _ => c.demand ≠ .document ∧ field = c.field
  | _ => False

/-- A part of a form is judged by some clauses, looked at one after the other. -/
abbrev JudgedBy {α : Type} (fields : FormFields) (asked : List Clause)
    (x : Except BlockError α) : Prop :=
  DecidedBy (Clause.Met fields) (Clause.Names fields) asked x

variable {fields : FormFields} {name text : String} {demand : Demand} {α β γ : Type}

/-! ## One field -/

theorem met_iff_of_value (h : fields.value? name = some text) :
    Clause.Met fields ⟨name, demand⟩ ↔ demand.Accepts text := by
  unfold Clause.Met
  rw [h]

theorem met_iff_of_absent (h : fields.value? name = none) :
    Clause.Met fields ⟨name, demand⟩ ↔ demand ≠ .present := by
  unfold Clause.Met
  rw [h]

theorem judgedBy_of_absent (hvalue : fields.value? name = none) (hdemand : demand ≠ .present)
    (a : α) : JudgedBy fields [⟨name, demand⟩] (.ok a : Except BlockError α) :=
  .ok_of_holds ((met_iff_of_absent hvalue).mpr hdemand) a

theorem judgedBy_of_accepted (hvalue : fields.value? name = some text)
    (haccepts : demand.Accepts text) (a : α) :
    JudgedBy fields [⟨name, demand⟩] (.ok a : Except BlockError α) :=
  .ok_of_holds ((met_iff_of_value hvalue).mpr haccepts) a

theorem judgedBy_of_refused {e : BlockError} (hvalue : fields.value? name = some text)
    (hrefused : ¬ demand.Accepts text) (hnames : Clause.Names fields ⟨name, demand⟩ e) :
    JudgedBy fields [⟨name, demand⟩] (.error e : Except BlockError α) :=
  .here (fun hmet => hrefused ((met_iff_of_value hvalue).mp hmet)) hnames

/-! ## Numbers -/

/-- Read a field in some way, if it was submitted. -/
def readWith (fields : FormFields) (name : String) (read? : String → Option β)
    (remark : String) : Except BlockError (Option β) :=
  match fields.value? name with
  | none => .ok none
  | some text =>
      match read? text with
      | some b => .ok (some b)
      | none => .error (.invalidForm name (FormFields.quoted text remark))

theorem whole?_eq (fields : FormFields) (name : String) :
    fields.whole? name = readWith fields name readWord? "is not a whole number" := by
  unfold FormFields.whole? readWith
  cases fields.value? name with
  | none => rfl
  | some text => cases hread : readWord? text <;> simp only [hread]

theorem number?_eq (fields : FormFields) (name : String) :
    fields.number? name =
      readWith fields name (fun text => Decimal.read? text.toList) "is not a number" := by
  unfold FormFields.number? readWith
  cases fields.value? name with
  | none => rfl
  | some text => cases hread : Decimal.read? text.toList <;> simp only [hread]

/-- A field that is read is judged by what was read, where a check of that refuses
exactly what does not fit. -/
theorem judgedBy_readWith {read? : String → Option β} {remark : String}
    {check : Option β → Except BlockError γ} {Fits : β → Prop}
    (hpresent : demand ≠ .present) (hdocument : demand ≠ .document)
    (haccepts : ∀ text, demand.Accepts text ↔ ∃ b, read? text = some b ∧ Fits b)
    (hnone : ∃ a, check none = .ok a) (hfits : ∀ b, Fits b → ∃ a, check (some b) = .ok a)
    (hunfit : ∀ text b, read? text = some b → ¬ Fits b →
      ∃ reason, check (some b) = .error (.invalidForm name reason)) :
    JudgedBy fields [⟨name, demand⟩] (readWith fields name read? remark >>= check) := by
  unfold readWith
  split
  · rename_i hvalue
    obtain ⟨a, ha⟩ := hnone
    change JudgedBy fields _ (check none)
    rw [ha]
    exact judgedBy_of_absent hvalue hpresent a
  · rename_i text hvalue
    split
    · rename_i b hread
      have hsame : demand.Accepts text ↔ Fits b := by
        rw [haccepts, hread]
        simp
      change JudgedBy fields _ (check (some b))
      by_cases hb : Fits b
      · obtain ⟨a, ha⟩ := hfits b hb
        rw [ha]
        exact judgedBy_of_accepted hvalue (hsame.mpr hb) a
      · obtain ⟨reason, hreason⟩ := hunfit text b hread hb
        rw [hreason]
        exact judgedBy_of_refused hvalue (mt hsame.mp hb) ⟨hdocument, rfl⟩
    · rename_i hread
      refine judgedBy_of_refused hvalue ?_ ⟨hdocument, rfl⟩
      rw [haccepts, hread]
      simp

theorem isWord_of_readWord? {n : Int} (h : readWord? text = some n) :
    wordRange.1 ≤ n ∧ n ≤ wordRange.2 := by
  have hword : isWord n = true := (Option.filter_eq_some_iff.mp h).2
  simpa [isWord] using hword

theorem judgedBy_whole? (fields : FormFields) (name : String) :
    JudgedBy fields [⟨name, .word⟩] (fields.whole? name) := by
  rw [← bind_pure (fields.whole? name), whole?_eq]
  refine judgedBy_readWith (by decide) (by decide) (fun _ => Iff.rfl) ⟨_, rfl⟩
    (fun n _ => ⟨_, rfl⟩) ?_
  intro text n hread hunfit
  exact absurd (isWord_of_readWord? hread) hunfit

theorem judgedBy_targetMinutes? (fields : FormFields) :
    JudgedBy fields [⟨"targetMinutes", .whole 1 1440⟩] (targetMinutes? fields) := by
  unfold targetMinutes?
  rw [whole?_eq]
  refine judgedBy_readWith (by decide) (by decide) (fun _ => Iff.rfl) ⟨_, rfl⟩ ?_ ?_
  · intro minutes hfits
    exact ⟨_, if_pos hfits⟩
  · intro text minutes _ hunfit
    exact ⟨_, if_neg hunfit⟩

theorem judgedBy_count? (fields : FormFields) (name : String) :
    JudgedBy fields [⟨name, .whole 1 wordRange.2⟩] (count? fields name) := by
  unfold count?
  rw [whole?_eq]
  refine judgedBy_readWith (by decide) (by decide) (fun _ => Iff.rfl) ⟨_, rfl⟩ ?_ ?_
  · intro n hfits
    exact ⟨_, if_neg (Int.not_lt.mpr hfits.1)⟩
  · intro text n hread hunfit
    have hsmall : n < 1 := by
      have hmost := (isWord_of_readWord? hread).2
      omega
    exact ⟨_, if_pos hsmall⟩

theorem isFinite_of_read? {cs : List Char} {x : Float} (h : Decimal.read? cs = some x) :
    x.isFinite = true := by
  unfold Decimal.read? at h
  dsimp only at h
  split at h
  · split at h
    · rename_i hfinite
      rw [← Option.some.inj h]
      exact hfinite
    · cases h
  · cases h

theorem judgedBy_number? (fields : FormFields) (name : String) :
    JudgedBy fields [⟨name, .number⟩] (fields.number? name) := by
  rw [← bind_pure (fields.number? name), number?_eq]
  refine judgedBy_readWith (by decide) (by decide) (fun _ => Iff.rfl) ⟨_, rfl⟩
    (fun x _ => ⟨_, rfl⟩) ?_
  intro text x hread hunfit
  exact absurd (isFinite_of_read? hread) hunfit

theorem judgedBy_gap? (fields : FormFields) (a : Attribute) :
    JudgedBy fields [⟨"separation_" ++ a.name, .nonnegative⟩] (gap? fields a) := by
  unfold gap?
  dsimp only
  rw [number?_eq]
  refine judgedBy_readWith (by decide) (by decide) (fun _ => Iff.rfl) ⟨_, rfl⟩ ?_ ?_
  · intro minutes hfits
    exact ⟨_, if_neg hfits.2⟩
  · intro text minutes hread hunfit
    have hnegative : minutes < 0 := by
      by_contra hnot
      exact hunfit ⟨isFinite_of_read? hread, hnot⟩
    exact ⟨_, if_pos hnegative⟩

/-! ## Documents -/

/-- A text of which something is left when it is trimmed is not blank. -/
theorem isBlankText_of_isLabel (h : IsLabel text) : isBlankText text = false := by
  rw [Bool.eq_false_iff]
  intro hblank
  apply h.nonempty
  have hkept : text.toList.dropWhile isBlank = [] :=
    List.dropWhile_eq_nil_iff.mpr (List.all_eq_true.mp hblank)
  rw [← h.trimmed, trim, dropEnds, hkept]
  rfl

theorem document_accepts_iff (h : isBlankText text = false) :
    Demand.document.Accepts text ↔ ∃ d, Document.read text = .ok d := by
  unfold Document.read
  rw [if_neg (Bool.eq_false_iff.mp h)]
  constructor
  · rintro (hnull | ⟨members, hobject⟩)
    · rw [hnull]
      exact ⟨_, rfl⟩
    · rw [hobject]
      exact ⟨_, rfl⟩
  · rintro ⟨d, hd⟩
    split at hd
    · cases hd
    · rename_i members hobject
      exact .inr ⟨members, hobject⟩
    · rename_i hnull
      exact .inl hnull
    · cases hd

theorem judgedBy_document (fields : FormFields) (name : String) :
    JudgedBy fields [⟨name, .document⟩] (document fields name) := by
  unfold document
  split
  · rename_i hvalue
    exact judgedBy_of_absent hvalue (by decide) _
  · rename_i text hvalue
    have haccepts := document_accepts_iff
      (isBlankText_of_isLabel (FormFields.isLabel_of_value? hvalue))
    split
    · rename_i d hread
      exact judgedBy_of_accepted hvalue (haccepts.mpr ⟨d, hread⟩) d
    · rename_i cause hread
      apply judgedBy_of_refused hvalue
      · intro hfine
        obtain ⟨d, hd⟩ := haccepts.mp hfine
        rw [hread] at hd
        cases hd
      · exact ⟨rfl, text, hvalue, hread⟩

/-! ## The energy curve -/

theorem judgedBy_energyLevel (fields : FormFields) (part : String) :
    DecidedBy (fun part => ∃ n, readWord? part = some n ∧ 0 ≤ n ∧ n ≤ 100)
      (fun _ => Clause.Names fields ⟨"energyCurve", .levels⟩) [part] (energyLevel part) := by
  unfold energyLevel
  split
  · rename_i n hn
    obtain ⟨hread, hrange⟩ := Option.filter_eq_some_iff.mp hn
    rw [Bool.and_eq_true, decide_eq_true_iff, decide_eq_true_iff] at hrange
    exact .ok_of_holds ⟨n, hread, hrange⟩ n
  · rename_i hn
    refine .here ?_ ⟨by decide, rfl⟩
    rintro ⟨n, hread, hlow, hhigh⟩
    rw [hread, Option.filter_some, if_pos (by simp [hlow, hhigh])] at hn
    cases hn

theorem judgedBy_energyCurve? (fields : FormFields) :
    JudgedBy fields [⟨"energyCurve", .levels⟩] (energyCurve? fields) := by
  unfold energyCurve?
  split
  · rename_i hvalue
    exact judgedBy_of_absent hvalue (by decide) none
  · rename_i text hvalue
    have hparts := DecidedBy.mapM (judgedBy_energyLevel fields) (commaParts text)
    cases hlevels : (commaParts text).mapM energyLevel with
    | ok levels =>
        rw [hlevels] at hparts
        have haccepts : Demand.levels.Accepts text := hparts
        exact judgedBy_of_accepted hvalue haccepts _
    | error e =>
        rw [hlevels] at hparts
        obtain ⟨part, hpart, hrefused, hnames⟩ := FailsFirst.exists_not hparts
        exact judgedBy_of_refused hvalue (fun hfine => hrefused (hfine part hpart)) hnames

/-! ## The whole form -/

theorem judgedBy_overlayFilters (fields : FormFields) (rules : Document) :
    JudgedBy fields
      [⟨"targetMinutes", .whole 1 1440⟩, ⟨"durationAccuracy", .word⟩, ⟨"bpmMin", .number⟩,
        ⟨"bpmMax", .number⟩, ⟨"yearMin", .word⟩, ⟨"yearMax", .word⟩]
      (overlayFilters fields rules) :=
  (judgedBy_targetMinutes? fields).bind fun _ =>
    (judgedBy_whole? fields "durationAccuracy").bind fun _ =>
      (judgedBy_number? fields "bpmMin").bind fun _ =>
        (judgedBy_number? fields "bpmMax").bind fun _ =>
          (judgedBy_whole? fields "yearMin").bind fun _ =>
            (judgedBy_whole? fields "yearMax").bind_ok _

theorem judgedBy_overlaySeparation (fields : FormFields) (rules : Document) :
    JudgedBy fields (Attribute.separable.map fun a => ⟨"separation_" ++ a.name, .nonnegative⟩)
      (overlaySeparation fields rules) := by
  have hgaps : ∀ (o : Overlaid) (a : Attribute),
      JudgedBy fields [⟨"separation_" ++ a.name, .nonnegative⟩]
        (gap? fields a >>= fun gap => .ok (o.setIf a.name (gap.map Json.real))) :=
    fun o a => (judgedBy_gap? fields a).bind_ok _
  exact (DecidedBy.foldlM hgaps _ _).bind_ok _

theorem judgedBy_overlayBreaks (fields : FormFields) (rules : Document) :
    JudgedBy fields [⟨"ads_every", .whole 1 wordRange.2⟩, ⟨"ads_per_break", .whole 1 wordRange.2⟩]
      (overlayBreaks fields rules) := by
  have hcounts : ∀ (o : Overlaid) (key : String × String),
      JudgedBy fields [⟨key.1, .whole 1 wordRange.2⟩]
        (count? fields key.1 >>= fun count => .ok (o.setIf key.2 (count.map Json.int))) :=
    fun o key => (judgedBy_count? fields key.1).bind_ok _
  exact (DecidedBy.foldlM hcounts countKeys _).bind_ok _

theorem judgedBy_overlaySequence (fields : FormFields) (sequence : Document) :
    JudgedBy fields [⟨"energyCurve", .levels⟩] (overlaySequence fields sequence) :=
  (judgedBy_energyCurve? fields).bind_ok _

/-- A form is judged by the table, from its first line to its last. -/
theorem judgedBy_read (fields : FormFields) : JudgedBy fields clauses (read fields) := by
  unfold read
  split
  · rename_i hvalue
    exact .here (fun hmet => (met_iff_of_absent hvalue).mp hmet rfl) ⟨by decide, rfl⟩
  · rename_i name hvalue
    refine .cons ((met_iff_of_value hvalue).mpr trivial) ?_
    exact (judgedBy_document fields "rules").bind fun _ =>
      (judgedBy_document fields "sequence").bind fun _ =>
        (judgedBy_overlayFilters fields _).bind fun _ =>
          (judgedBy_overlaySeparation fields _).bind fun _ =>
            (judgedBy_overlayBreaks fields _).bind fun _ =>
              (judgedBy_overlaySequence fields _).bind_ok _

/-- A form is accepted if and only if it meets every clause, and a refusal is that of
the first clause it does not meet. -/
theorem read_accepted_iff (fields : FormFields) :
    ((∃ s, read fields = .ok s) ↔ ∀ c ∈ clauses, c.Met fields) ∧
      ∀ e, read fields = .error e →
        FailsFirst (Clause.Met fields) (Clause.Names fields) clauses e := by
  have hjudged := judgedBy_read fields
  refine ⟨hjudged.exists_ok_iff, ?_⟩
  intro e he
  rw [he] at hjudged
  exact hjudged

-- The tempo is looked at before the years, and its last value that is not blank counts.
example :
    read [("yearMin", "early"), ("name", "Evening"), ("bpmMin", "fast"), ("bpmMin", " ")] =
      .error (.invalidForm "bpmMin" "'fast' is not a number") := by
  rfl

end Submission

end Rundown
