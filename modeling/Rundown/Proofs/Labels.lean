import Rundown.Document
import Rundown.Proofs.Ends

/-!
# Labels

A label is a text that is not empty and has no blank at either end.  Every text
that is read leniently is a label: strings are trimmed and dropped when nothing
is left, and a number is written with at least one character and no blank.
Reading a label once more changes nothing, so a label that is stored is found
again as it is.
-/

namespace Rundown

namespace Text

/-! ## Trimming twice -/

theorem trim_trim (s : String) : trim (trim s) = trim s := by
  unfold trim
  rw [String.toList_ofList, dropEnds_dropEnds]

/-! ## Labels -/

/-- Not empty, and without blanks at its ends. -/
structure IsLabel (s : String) : Prop where
  nonempty : s ≠ ""
  trimmed : trim s = s

theorem IsLabel.of_nonBlank? {s t : String} (h : nonBlank? s = some t) : IsLabel t := by
  have hkept := nonBlank?_ne_empty h
  simp only [nonBlank?] at h
  split at h
  · cases h
  · rw [← Option.some.inj h] at hkept ⊢
    refine ⟨?_, trim_trim s⟩
    intro hempty
    rw [hempty] at hkept
    cases hkept

theorem IsLabel.nonBlank?_eq {s : String} (h : IsLabel s) : nonBlank? s = some s := by
  unfold nonBlank?
  rw [h.trimmed]
  simp [h.nonempty]

/-- A text of characters that are not blank has nothing to trim. -/
theorem IsLabel.ofList {cs : List Char} (hne : cs ≠ []) (h : ∀ c ∈ cs, isBlank c = false) :
    IsLabel (String.ofList cs) := by
  constructor
  · intro hempty
    apply hne
    rw [← String.toList_ofList (l := cs), hempty]
    rfl
  · rw [trim, String.toList_ofList, dropEnds_eq_self _ _ h]

theorem IsLabel.of_mem_commaParts {s t : String} (h : t ∈ commaParts s) : IsLabel t := by
  obtain ⟨piece, _, hpiece⟩ := List.mem_filterMap.mp h
  exact .of_nonBlank? hpiece

/-! ## Numerals -/

theorem isBlank_of_isDigit {c : Char} (h : isDigit c = true) : isBlank c = false := by
  have hrange : 48 ≤ c.toNat ∧ c.toNat ≤ 57 := by
    simpa [isDigit, Char.le_def, UInt32.le_iff_toNat_le] using h
  simp only [isBlank, Bool.or_eq_false_iff, Bool.and_eq_false_iff, decide_eq_false_iff_not,
    beq_eq_false_iff_ne]
  omega

theorem isDigit_of_mem_natChars {n : Nat} {c : Char} (h : c ∈ natChars n) : isDigit c = true := by
  have hdigit : ∀ d < 10, isDigit (digitChar d) = true := by decide
  -- On the numeral without its last digit.
  induction n using natChars.induct with
  | case1 n hsmall =>
      rw [natChars, if_pos hsmall, List.mem_singleton] at h
      rw [h]
      exact hdigit n hsmall
  | case2 n hlarge ih =>
      rw [natChars, if_neg hlarge, List.mem_append, List.mem_singleton] at h
      rcases h with hhigh | rfl
      · exact ih hhigh
      · exact hdigit _ (Nat.mod_lt n (by decide))

theorem isBlank_of_mem_natChars {n : Nat} {c : Char} (h : c ∈ natChars n) : isBlank c = false :=
  isBlank_of_isDigit (isDigit_of_mem_natChars h)

theorem isLabel_natText (n : Nat) : IsLabel (natText n) :=
  .ofList (natChars_ne_nil n) fun _ h => isBlank_of_mem_natChars h

theorem isLabel_intText (n : Int) : IsLabel (intText n) := by
  unfold intText
  split
  · have hsign : "-" ++ natText n.natAbs = String.ofList ('-' :: natChars n.natAbs) := by
      rw [natText, ← List.singleton_append, String.ofList_append]
    rw [hsign]
    refine .ofList (List.cons_ne_nil _ _) fun c hc => ?_
    rcases List.mem_cons.mp hc with rfl | hc
    · rfl
    · exact isBlank_of_mem_natChars hc
  · exact isLabel_natText _

end Text

namespace Decimal

open Text

section Digits

variable {digits : List Char} (hdigits : ∀ c ∈ digits, isBlank c = false)

include hdigits

theorem isBlank_of_mem_positional (power : Int) :
    ∀ c ∈ positional digits power, isBlank c = false := by
  have hzeros : ∀ (n : Nat), ∀ c ∈ List.replicate n '0', isBlank c = false := by
    intro n c hc
    rw [(List.mem_replicate.mp hc).2]
    decide
  intro c hc
  unfold positional at hc
  split at hc
  · simp only [List.mem_cons, List.mem_append] at hc
    rcases hc with rfl | rfl | hzero | hdigit
    · decide
    · decide
    · exact hzeros _ c hzero
    · exact hdigits c hdigit
  · simp only [List.mem_cons, List.mem_append] at hc
    rcases hc with (hwhole | hzero) | rfl | hfraction
    · exact hdigits c (List.mem_of_mem_take hwhole)
    · exact hzeros _ c hzero
    · decide
    · split at hfraction
      · rw [List.mem_singleton.mp hfraction]
        decide
      · exact hdigits c (List.mem_of_mem_drop hfraction)

theorem isBlank_of_mem_scientific (power : Int) :
    ∀ c ∈ scientific digits power, isBlank c = false := by
  intro c hc
  simp only [scientific, List.mem_cons, List.mem_append] at hc
  rcases hc with (hfirst | hfraction) | rfl | rfl | hpower
  · exact hdigits c (List.mem_of_mem_take hfirst)
  · split at hfraction
    · cases hfraction
    · rcases List.mem_cons.mp hfraction with rfl | hdigit
      · decide
      · exact hdigits c (List.mem_of_mem_drop hdigit)
  · decide
  · split <;> decide
  · exact isBlank_of_mem_natChars hpower

end Digits

theorem positional_ne_nil (digits : List Char) (power : Int) : positional digits power ≠ [] := by
  unfold positional
  split <;> simp

theorem scientific_ne_nil (digits : List Char) (power : Int) : scientific digits power ≠ [] := by
  unfold scientific
  simp

/-- Every number is written as a label, the NaN and the infinities too. -/
theorem isLabel_text (x : Float) : IsLabel (text x) := by
  have hsigned : ∀ {cs : List Char}, cs ≠ [] → (∀ c ∈ cs, isBlank c = false) →
      IsLabel (String.ofList ((if isNegative x then ['-'] else []) ++ cs)) := by
    intro cs hne hcs
    refine .ofList (by simp [hne]) fun c hc => ?_
    rcases List.mem_append.mp hc with hsign | hc
    · split at hsign
      · rw [List.mem_singleton.mp hsign]
        decide
      · cases hsign
    · exact hcs c hc
  have hink : ∀ {cs : List Char}, cs.all (fun c => !isBlank c) = true →
      ∀ c ∈ cs, isBlank c = false := by
    intro cs hall c hc
    simpa using List.all_eq_true.mp hall c hc
  unfold text
  simp only
  split
  · split
    · exact ⟨by decide, by decide⟩
    · exact hsigned (by decide) (hink (by decide))
  · split
    · exact hsigned (by decide) (hink (by decide))
    · split
      · exact hsigned (positional_ne_nil _ _)
          (isBlank_of_mem_positional (fun _ => isBlank_of_mem_natChars) _)
      · exact hsigned (scientific_ne_nil _ _)
          (isBlank_of_mem_scientific (fun _ => isBlank_of_mem_natChars) _)

end Decimal

/-! ## Lenient readings -/

namespace Json

open Text

theorem isLabel_of_label? {value : Json} {t : String} (h : value.label? = some t) :
    IsLabel t := by
  cases value with
  | str s =>
      rw [label?] at h
      exact .of_nonBlank? h
  | int n =>
      rw [← Option.some.inj h]
      exact isLabel_intText n
  | real x =>
      rw [← Option.some.inj h]
      exact Decimal.isLabel_text x
  | null => cases h
  | bool b => cases h
  | arr items => cases h
  | obj members => cases h

theorem isLabel_of_labelAt? {members : Members} {key t : String}
    (h : labelAt? members key = some t) : IsLabel t := by
  obtain ⟨value, _, hvalue⟩ := Option.bind_eq_some_iff.mp h
  exact isLabel_of_label? hvalue

theorem isLabel_of_mem_labels {value : Json} {t : String} (h : t ∈ value.labels) :
    IsLabel t := by
  cases value with
  | arr items =>
      obtain ⟨item, _, hitem⟩ := List.mem_filterMap.mp h
      exact isLabel_of_label? hitem
  | str s => exact .of_mem_commaParts h
  | null => cases h
  | bool b => cases h
  | int n => cases h
  | real x => cases h
  | obj members => cases h

theorem label?_str_of_isLabel {s : String} (h : IsLabel s) : (Json.str s).label? = some s := by
  rw [label?, h.nonBlank?_eq]

/-- Labels that are stored as an array are found again, in their order. -/
theorem labels_arr_of_isLabel {items : List String} (h : ∀ s ∈ items, IsLabel s) :
    (Json.arr (items.map Json.str)).labels = items := by
  change (items.map Json.str).filterMap label? = items
  have hread : ∀ s ∈ items, (label? ∘ Json.str) s = some s := by
    intro s hs
    rw [Function.comp_apply, label?_str_of_isLabel (h s hs)]
  rw [List.filterMap_map, List.filterMap_congr hread, List.filterMap_some]

end Json

theorem Document.isLabel_of_label? {d : Document} {key t : String} (h : d.label? key = some t) :
    Text.IsLabel t :=
  Json.isLabel_of_labelAt? h

end Rundown
