import Mathlib.Data.List.DropRight
import Rundown.Text.Blank

/-!
# The ends of a list

What is dropped from both ends of a list, and what is left.  The ends that are
dropped satisfy the predicate throughout, and they are as long as possible:
dropping once more, or putting more of the same at the ends first, changes
nothing.
-/

namespace Rundown.Text

variable {α : Type}

section Ends

variable (p : α → Bool) (items : List α)

theorem dropTrailing_eq_rdropWhile : dropTrailing p items = items.rdropWhile p := rfl

theorem dropEnds_sublist : (dropEnds p items).Sublist items := by
  unfold dropEnds dropTrailing
  have hback := (List.dropWhile_sublist p (l := (items.dropWhile p).reverse)).reverse
  rw [List.reverse_reverse] at hback
  exact hback.trans (List.dropWhile_sublist p)

/-- Nothing is left to drop at the front after both ends were cut: what is kept
starts where the first cut ended. -/
theorem dropWhile_dropEnds : (dropEnds p items).dropWhile p = dropEnds p items := by
  have hstart : dropEnds p items <+: items.dropWhile p := List.rdropWhile_prefix p _
  rw [List.dropWhile_eq_self_iff]
  intro hkept
  rw [hstart.getElem]
  exact List.dropWhile_get_zero_not p items (hkept.trans_le hstart.length_le)

theorem dropEnds_dropEnds : dropEnds p (dropEnds p items) = dropEnds p items := by
  have hback : dropTrailing p (dropEnds p items) = dropEnds p items :=
    List.rdropWhile_idempotent p (items.dropWhile p)
  rw [dropEnds, dropWhile_dropEnds, hback]

theorem dropEnds_eq_self (h : ∀ x ∈ items, p x = false) : dropEnds p items = items := by
  have hfront : items.dropWhile p = items := by
    rw [List.dropWhile_eq_self_iff]
    intro hlength
    rw [h _ (List.getElem_mem hlength)]
    exact Bool.false_ne_true
  rw [dropEnds, hfront, dropTrailing_eq_rdropWhile, List.rdropWhile_eq_self_iff]
  intro hne
  rw [h _ (List.getLast_mem hne)]
  exact Bool.false_ne_true

/-- What is dropped at either end satisfies the predicate. -/
theorem exists_split_dropEnds : ∃ front back, items = front ++ dropEnds p items ++ back ∧
    (∀ x ∈ front, p x = true) ∧ ∀ x ∈ back, p x = true := by
  refine ⟨items.takeWhile p, ((items.dropWhile p).reverse.takeWhile p).reverse, ?_,
    fun x hx => List.mem_takeWhile_imp hx,
    fun x hx => List.mem_takeWhile_imp (List.mem_reverse.mp hx)⟩
  rw [List.append_assoc, dropEnds, dropTrailing, ← List.reverse_append,
    List.takeWhile_append_dropWhile, List.reverse_reverse, List.takeWhile_append_dropWhile]

theorem dropEnds_eq_nil_iff : dropEnds p items = [] ↔ ∀ x ∈ items, p x = true := by
  constructor
  · intro hnil x hx
    obtain ⟨front, back, hsplit, hfront, hback⟩ := exists_split_dropEnds p items
    rw [hnil, List.append_nil] at hsplit
    rw [hsplit] at hx
    exact (List.mem_append.mp hx).elim (hfront x) (hback x)
  · intro hall
    rw [dropEnds, List.dropWhile_eq_nil_iff.mpr hall]
    rfl

/-- A property that all dropped elements have may be checked on what is left. -/
theorem forall_mem_dropEnds_iff {P : α → Prop} (h : ∀ x, p x = true → P x) :
    (∀ x ∈ dropEnds p items, P x) ↔ ∀ x ∈ items, P x := by
  constructor
  · intro hall x hx
    obtain ⟨front, back, hsplit, hfront, hback⟩ := exists_split_dropEnds p items
    rw [hsplit, List.mem_append, List.mem_append] at hx
    rcases hx with (hx | hx) | hx
    · exact h x (hfront x hx)
    · exact hall x hx
    · exact h x (hback x hx)
  · intro hall x hx
    exact hall x ((dropEnds_sublist p items).subset hx)

/-- What satisfies the predicate at either end makes no difference. -/
theorem dropEnds_append_append {front middle back : List α} (hfront : ∀ x ∈ front, p x = true)
    (hback : ∀ x ∈ back, p x = true) :
    dropEnds p (front ++ middle ++ back) = dropEnds p middle := by
  have hrest :
      dropTrailing p ((middle ++ back).dropWhile p) = dropTrailing p (middle.dropWhile p) := by
    rw [List.dropWhile_append]
    split
    next hnone => rw [List.isEmpty_iff.mp hnone, List.dropWhile_eq_nil_iff.mpr hback]
    next =>
      rw [dropTrailing, List.reverse_append,
        List.dropWhile_append_of_pos fun x hx => hback x (List.mem_reverse.mp hx)]
      rfl
  rw [dropEnds, List.append_assoc, List.dropWhile_append_of_pos hfront, hrest]
  rfl

end Ends

/-! ## Two predicates -/

/-- Where one predicate has nothing left to drop, a stricter one has not either. -/
theorem dropEnds_dropEnds_of_imp {p q : α → Bool} (h : ∀ x, q x = true → p x = true)
    (items : List α) : dropEnds q (dropEnds p items) = dropEnds p items := by
  obtain ⟨front, back, hsplit, hfront, hback⟩ := exists_split_dropEnds q (dropEnds p items)
  have hagain : dropEnds p items = dropEnds p (dropEnds q (dropEnds p items)) :=
    calc dropEnds p items = dropEnds p (dropEnds p items) := (dropEnds_dropEnds p items).symm
      _ = dropEnds p (front ++ dropEnds q (dropEnds p items) ++ back) := by rw [← hsplit]
      _ = dropEnds p (dropEnds q (dropEnds p items)) :=
        dropEnds_append_append p (fun x hx => h x (hfront x hx)) fun x hx => h x (hback x hx)
  have hlength := (dropEnds_sublist p (dropEnds q (dropEnds p items))).length_le
  rw [← hagain] at hlength
  exact (dropEnds_sublist q (dropEnds p items)).eq_of_length_le hlength


theorem dropWhile_congr {p q : α → Bool} {items : List α}
    (h : ∀ x ∈ items, p x = q x) : items.dropWhile p = items.dropWhile q := by
  induction items with
  | nil => rfl
  | cons x rest ih =>
      have hrest := ih fun y hy => h y (List.mem_cons_of_mem x hy)
      rw [List.dropWhile_cons, List.dropWhile_cons, h x List.mem_cons_self, hrest]

theorem dropEnds_congr {p q : α → Bool} {items : List α}
    (h : ∀ x ∈ items, p x = q x) : dropEnds p items = dropEnds q items := by
  unfold dropEnds dropTrailing
  rw [dropWhile_congr h]
  have hleft : ∀ x ∈ (items.dropWhile q).reverse, p x = q x := by
    intro x hx
    exact h x ((List.dropWhile_sublist q).subset (List.mem_reverse.mp hx))
  rw [dropWhile_congr hleft]

end Rundown.Text
