import Rundown.Catalog.Database
import Rundown.Proofs.Ends

/-!
# Keys of printable texts

Within the printable characters of ASCII the two ways of comparing texts meet:
the space is the only blank, and no letter but A to Z has a lowercase.  There
the keys that a database computes for its stored texts, by trimming spaces,
lowering A to Z and taking one punctuation mark away after the other, are the
case key and the match key.

Beyond these characters the keys differ, and nothing is said about them.
-/

namespace Rundown

namespace Text

/-- The characters from the space to the tilde. -/
def IsPrintable (c : Char) : Prop :=
  32 ≤ c.toNat ∧ c.toNat ≤ 126

instance (c : Char) : Decidable (IsPrintable c) :=
  inferInstanceAs (Decidable (_ ∧ _))

/-- A text of printable characters only. -/
def Printable (cs : List Char) : Prop :=
  ∀ c ∈ cs, IsPrintable c

instance (cs : List Char) : Decidable (Printable cs) :=
  List.decidableBAll IsPrintable cs

theorem Printable.sublist {cs part : List Char} (h : Printable cs) (hpart : part.Sublist cs) :
    Printable part :=
  fun c hc => h c (hpart.subset hc)

/-! ## Trimming -/

theorem isBlank_eq_of_printable {c : Char} (h : IsPrintable c) : isBlank c = (c == ' ') := by
  have hspace : c = ' ' ↔ c.toNat = 32 := Char.toNat_inj.symm
  obtain ⟨hlow, hhigh⟩ := h
  rw [Bool.eq_iff_iff, beq_iff_eq, hspace]
  simp only [isBlank, Bool.or_eq_true, Bool.and_eq_true, decide_eq_true_eq, beq_iff_eq]
  omega

/-! ## Lowering -/

theorem lowerFrom_eq_of_printable {cs : List Char} (h : Printable cs) (before : List Char) :
    lowerFrom before cs = cs.map Char.toLower := by
  induction cs generalizing before with
  | nil => rfl
  | cons c rest ih =>
      have hc := h c List.mem_cons_self
      have hsigma : c ≠ capitalSigma := by
        rintro rfl
        exact absurd hc (by decide)
      have hlower : lowerChar c = [c.toLower] := by
        unfold lowerChar
        rw [if_pos (by have := hc.2; omega)]
      have hrest := ih (fun d hd => h d (List.mem_cons_of_mem c hd)) (c :: before)
      rw [lowerFrom, if_neg hsigma, hlower, hrest]
      rfl

end Text

namespace Database

open Text

variable {cs : List Char}

/-- Trimming and lowering a printable text is the same for a database. -/
theorem folded_eq (h : Printable cs) : folded cs = lowerChars (dropEnds isBlank cs) := by
  have htrimmed : dropEnds isBlank cs = dropEnds (· == ' ') cs :=
    dropEnds_congr fun c hc => isBlank_eq_of_printable (h c hc)
  unfold folded lowerChars
  rw [htrimmed, lowerFrom_eq_of_printable (h.sublist (dropEnds_sublist _ _))]

/-- Taking marks away one after the other takes away all of them. -/
theorem without_eq_filter (marks cs : List Char) :
    without marks cs = cs.filter fun c => !marks.contains c := by
  induction marks generalizing cs with
  | nil => exact (List.filter_eq_self.mpr fun _ _ => rfl).symm
  | cons mark marks ih =>
      change without marks (cs.filter (· != mark)) = _
      rw [ih, List.filter_filter]
      apply List.filter_congr
      intro c _
      rw [List.contains_cons, Bool.not_or, Bool.and_comm]
      rfl

/-- The stored key of a printable text is its match key. -/
theorem storedKey_eq (h : Printable cs) : storedKey cs = matchChars cs := by
  unfold storedKey matchChars
  rw [without_eq_filter, folded_eq h]
  rfl

end Database

end Rundown
