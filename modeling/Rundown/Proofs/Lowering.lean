import Rundown.Text.MatchKey

/-!
# Lowering character by character

Lowering goes through a text once.  Every character becomes one character, the
dotted capital I two; which one depends on the surroundings for the capital
sigma alone.  Punctuation stays as it is and none is made of anything else, and
nothing becomes a dotted capital I.

Which letters the table pairs is not described here: of its entries only bounds
are used.
-/

namespace Rundown.Text

/-! ## Lowering within ASCII -/

theorem isUpper_iff {c : Char} : c.isUpper = true ↔ 65 ≤ c.toNat ∧ c.toNat ≤ 90 := by
  change decide (c.val ≥ 'A'.val ∧ c.val ≤ 'Z'.val) = true ↔ _
  rw [decide_eq_true_iff]
  exact and_congr UInt32.le_iff_toNat_le UInt32.le_iff_toNat_le

theorem toLower_of_not_isUpper {c : Char} (h : c.isUpper = false) : c.toLower = c := by
  unfold Char.toLower
  rw [dif_neg (of_decide_eq_false h)]

theorem toNat_toLower_of_isUpper {c : Char} (h : c.isUpper = true) :
    c.toLower.toNat = c.toNat + 32 := by
  have hrange := isUpper_iff.mp h
  unfold Char.toLower
  rw [dif_pos (of_decide_eq_true h)]
  change (c.val + 32).toNat = _
  rw [UInt32.toNat_add]
  change (c.toNat + 32) % 4294967296 = _
  omega

theorem lowerChar_of_ascii {c : Char} (h : c.toNat < 128) : lowerChar c = [c.toLower] :=
  if_pos h

/-! ## The table -/

/-- The capital I with a dot above, the one letter that becomes two characters. -/
def dottedCapitalI : Char := 'İ'

theorem lowerChar_dottedCapitalI : lowerChar dottedCapitalI = ['i', Char.ofNat 0x307] := rfl

/-- The images of the table lie beyond the punctuation, and the dotted capital I
lies on none of them. -/
theorem image_of_mem_lowerRuns : ∀ run ∈ lowerRuns, 97 ≤ run.image ∧
    (run.image + (run.last - run.first) < 0x130 ∨ 0x130 < run.image) := by
  decide +kernel

/-- A code point that belongs to no character gives the null character. -/
theorem toNat_ofNat_cases (code : Nat) :
    (Char.ofNat code).toNat = 0 ∨ (Char.ofNat code).toNat = code := by
  by_cases hvalid : code.isValidChar
  · have hchar : Char.ofNat code = Char.ofNatAux code hvalid := dif_pos hvalid
    rw [hchar]
    exact .inr rfl
  · have hnull : Char.ofNat code = '\x00' := dif_neg hvalid
    rw [hnull]
    exact .inl rfl

/-- A character beyond ASCII stays, is the dotted capital I, or becomes another
one that is neither punctuation nor the dotted capital I. -/
theorem lowerChar_of_not_ascii {c : Char} (h : 128 ≤ c.toNat) :
    (c ≠ dottedCapitalI ∧ lowerChar c = [c]) ∨ c = dottedCapitalI ∨
      ∃ d, lowerChar c = [d] ∧ (d.toNat = 0 ∨ 97 ≤ d.toNat) ∧ d ≠ dottedCapitalI := by
  by_cases hdotted : c.toNat = 0x130
  · exact .inr (.inl (Char.toNat_inj.mp hdotted))
  · have hne : c ≠ dottedCapitalI := fun heq => hdotted (by rw [heq]; rfl)
    have hascii : ¬c.toNat < 128 := by omega
    cases hrun : lowerRuns.find? (·.covers c.toNat) with
    | none => exact .inl ⟨hne, by simp only [lowerChar, hascii, hdotted, hrun, if_false]⟩
    | some run =>
        have hlower : lowerChar c = [Char.ofNat (run.lower c.toNat)] := by
          simp only [lowerChar, hascii, hdotted, hrun, if_false]
        refine .inr (.inr ⟨_, hlower, ?_⟩)
        have hcovers := List.find?_some hrun
        simp only [LowerRun.covers, Bool.and_eq_true, decide_eq_true_eq] at hcovers
        obtain ⟨⟨hfirst, hlast⟩, -⟩ := hcovers
        obtain ⟨hlow, hgap⟩ := image_of_mem_lowerRuns run (List.mem_of_find?_eq_some hrun)
        have hnat : (Char.ofNat (run.lower c.toNat)).toNat = 0 ∨
            (Char.ofNat (run.lower c.toNat)).toNat = run.image + (c.toNat - run.first) :=
          toNat_ofNat_cases _
        refine ⟨by omega, fun heq => ?_⟩
        have hcode : (Char.ofNat (run.lower c.toNat)).toNat = 0x130 := by rw [heq]; rfl
        omega

theorem length_lowerChar {c : Char} (h : c ≠ dottedCapitalI) : (lowerChar c).length = 1 := by
  rcases Nat.lt_or_ge c.toNat 128 with hascii | hbeyond
  · rw [lowerChar_of_ascii hascii]
    rfl
  · rcases lowerChar_of_not_ascii hbeyond with ⟨-, hself⟩ | hdotted | ⟨e, hother, -⟩
    · rw [hself]
      rfl
    · exact absurd hdotted h
    · rw [hother]
      rfl

theorem lowerChar_ne_nil (c : Char) : lowerChar c ≠ [] := by
  by_cases hdotted : c = dottedCapitalI
  · rw [hdotted, lowerChar_dottedCapitalI]
    exact List.cons_ne_nil _ _
  · exact List.ne_nil_of_length_eq_add_one (length_lowerChar hdotted)

/-- Nothing becomes a dotted capital I. -/
theorem ne_dottedCapitalI_of_mem_lowerChar {c d : Char} (h : d ∈ lowerChar c) :
    d ≠ dottedCapitalI := by
  rcases Nat.lt_or_ge c.toNat 128 with hascii | hbeyond
  · rw [lowerChar_of_ascii hascii, List.mem_singleton] at h
    intro heq
    have hcode : c.toLower.toNat = 0x130 := by rw [← h, heq]; rfl
    cases hupper : c.isUpper with
    | false =>
        rw [toLower_of_not_isUpper hupper] at hcode
        omega
    | true =>
        rw [toNat_toLower_of_isUpper hupper] at hcode
        omega
  · rcases lowerChar_of_not_ascii hbeyond with ⟨hne, hself⟩ | rfl | ⟨e, hother, -, hne⟩
    · rw [hself, List.mem_singleton] at h
      rw [h]
      exact hne
    · rw [lowerChar_dottedCapitalI] at h
      rintro rfl
      revert h
      decide
    · rw [hother, List.mem_singleton] at h
      rw [h]
      exact hne

/-! ## Punctuation -/

/-- Punctuation has no case: it is no letter of ASCII and stays as it is. -/
theorem lowerChar_of_isMatchPunctuation {c : Char} (h : isMatchPunctuation c = true) :
    c.toNat < 97 ∧ 32 ≤ c.toNat ∧ c.isUpper = false ∧ lowerChar c = [c] := by
  have hall : ∀ c ∈ matchPunctuation, c.toNat < 97 ∧ 32 ≤ c.toNat ∧ c.isUpper = false := by
    simp [matchPunctuation]
  obtain ⟨hbelow, habove, hcase⟩ := hall c (List.contains_iff_mem.mp h)
  refine ⟨hbelow, habove, hcase, ?_⟩
  rw [lowerChar_of_ascii (by omega), toLower_of_not_isUpper hcase]

/-- A code point that is a letter of ASCII, or lies beyond those of the
punctuation, is no punctuation. -/
theorem not_isMatchPunctuation_of_toNat {c : Char} (h : c.toNat = 0 ∨ 97 ≤ c.toNat) :
    isMatchPunctuation c = false := by
  refine Bool.eq_false_iff.mpr fun hpunctuation => ?_
  obtain ⟨hbelow, habove, -⟩ := lowerChar_of_isMatchPunctuation hpunctuation
  omega

/-- Lowering within ASCII neither takes punctuation away nor makes it. -/
@[simp]
theorem isMatchPunctuation_toLower (c : Char) :
    isMatchPunctuation c.toLower = isMatchPunctuation c := by
  cases hupper : c.isUpper with
  | false => rw [toLower_of_not_isUpper hupper]
  | true =>
      have hrange := isUpper_iff.mp hupper
      have hcode := toNat_toLower_of_isUpper hupper
      have hbefore : isMatchPunctuation c = false := by
        refine Bool.eq_false_iff.mpr fun hpunctuation => ?_
        have hcase := (lowerChar_of_isMatchPunctuation hpunctuation).2.2.1
        rw [hupper] at hcase
        cases hcase
      rw [hbefore, not_isMatchPunctuation_of_toNat (.inr (by omega))]

/-- What is no punctuation is lowered to no punctuation. -/
theorem not_isMatchPunctuation_of_mem_lowerChar {c d : Char} (h : isMatchPunctuation c = false)
    (hd : d ∈ lowerChar c) : isMatchPunctuation d = false := by
  rcases Nat.lt_or_ge c.toNat 128 with hascii | hbeyond
  · rw [lowerChar_of_ascii hascii, List.mem_singleton] at hd
    rw [hd, isMatchPunctuation_toLower, h]
  · rcases lowerChar_of_not_ascii hbeyond with ⟨-, hself⟩ | rfl | ⟨e, hother, hcode, -⟩
    · rw [hself, List.mem_singleton] at hd
      rw [hd, h]
    · have hall : ∀ d ∈ lowerChar dottedCapitalI, 97 ≤ d.toNat := by
        simp [lowerChar_dottedCapitalI]
      exact not_isMatchPunctuation_of_toNat (.inr (hall d hd))
    · rw [hother, List.mem_singleton] at hd
      rw [hd, not_isMatchPunctuation_of_toNat hcode]

/-! ## One character in its place -/

/-- A sigma between the two texts, the earlier one read backwards, ends a word. -/
def endsWord (before after : List Char) : Bool :=
  nearestIsCased before && !nearestIsCased after

/-- What a character is lowered to between the two texts. -/
def lowerAt (before : List Char) (c : Char) (after : List Char) : List Char :=
  if c = capitalSigma then
    if endsWord before after then ['ς'] else ['σ']
  else lowerChar c

theorem lowerFrom_cons (before : List Char) (c : Char) (rest : List Char) :
    lowerFrom before (c :: rest) = lowerAt before c rest ++ lowerFrom (c :: before) rest := rfl

theorem lowerAt_capitalSigma (before after : List Char) :
    lowerAt before capitalSigma after = if endsWord before after then ['ς'] else ['σ'] :=
  if_pos rfl

theorem lowerChar_capitalSigma : lowerChar capitalSigma = ['σ'] := by
  decide +kernel

theorem lowerAt_of_ne {c : Char} (h : c ≠ capitalSigma) (before after : List Char) :
    lowerAt before c after = lowerChar c :=
  if_neg h

/-- The surroundings decide which sigma is written, not how many characters are. -/
theorem length_lowerAt (before : List Char) (c : Char) (after : List Char) :
    (lowerAt before c after).length = (lowerChar c).length := by
  by_cases hsigma : c = capitalSigma
  · rw [hsigma, lowerAt_capitalSigma, lowerChar_capitalSigma]
    split <;> rfl
  · rw [lowerAt_of_ne hsigma]

theorem lowerAt_ne_nil (before : List Char) (c : Char) (after : List Char) :
    lowerAt before c after ≠ [] := by
  have hlength := length_lowerAt before c after
  have hpositive := List.length_pos_iff.mpr (lowerChar_ne_nil c)
  rw [← hlength] at hpositive
  exact List.length_pos_iff.mp hpositive

theorem mem_lowerAt {before after : List Char} {c d : Char} (h : d ∈ lowerAt before c after) :
    d = 'ς' ∨ d = 'σ' ∨ d ∈ lowerChar c := by
  by_cases hsigma : c = capitalSigma
  · rw [hsigma, lowerAt_capitalSigma] at h
    split at h
    · exact .inl (List.mem_singleton.mp h)
    · exact .inr (.inl (List.mem_singleton.mp h))
  · rw [lowerAt_of_ne hsigma] at h
    exact .inr (.inr h)

theorem dottedCapitalI_notMem_lowerFrom (before cs : List Char) :
    dottedCapitalI ∉ lowerFrom before cs := by
  induction cs generalizing before with
  | nil => exact List.not_mem_nil
  | cons c rest ih =>
      rw [lowerFrom_cons, List.mem_append]
      rintro (hhere | hlater)
      · rcases mem_lowerAt hhere with hsigma | hsigma | hlower
        · exact absurd hsigma (by decide)
        · exact absurd hsigma (by decide)
        · exact ne_dottedCapitalI_of_mem_lowerChar hlower rfl
      · exact ih (c :: before) hlater

theorem not_isMatchPunctuation_of_mem_lowerAt {before after : List Char} {c d : Char}
    (h : isMatchPunctuation c = false) (hd : d ∈ lowerAt before c after) :
    isMatchPunctuation d = false := by
  rcases mem_lowerAt hd with rfl | rfl | hd
  · exact not_isMatchPunctuation_of_toNat (.inr (by decide))
  · exact not_isMatchPunctuation_of_toNat (.inr (by decide))
  · exact not_isMatchPunctuation_of_mem_lowerChar h hd

theorem ne_capitalSigma_of_isMatchPunctuation {c : Char} (h : isMatchPunctuation c = true) :
    c ≠ capitalSigma := by
  intro heq
  have hcode : c.toNat = 931 := by rw [heq]; rfl
  have hbelow := (lowerChar_of_isMatchPunctuation h).1
  omega

theorem lowerAt_of_isMatchPunctuation {c : Char} (h : isMatchPunctuation c = true)
    (before after : List Char) : lowerAt before c after = [c] := by
  rw [lowerAt_of_ne (ne_capitalSigma_of_isMatchPunctuation h),
    (lowerChar_of_isMatchPunctuation h).2.2.2]

end Rundown.Text
