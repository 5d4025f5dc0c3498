import Rundown.Text.Numeral

/-!
# Reckoning of times

Times are reckoned as integers, and each of them has to fit into 64 bits.  A time that
does not fit breaks the computation off with an overflow, which names the operation
that formed it.  So a computation has a result on integers and a list of the times it
forms, in the order in which it forms them; the first of these that does not fit
decides, and without one the result stands.

A reckoning says what becomes of an exact sum or difference.  All computations are
written for any reckoning, so that a list of times can be held against them: a
reckoning that keeps what is listed must lead to the same result.
-/

namespace Rundown

/-- How a time is formed from others. -/
inductive Operation where
  | sum
  | difference
  /-- For a distance, which is formed from a time below zero by negating it. -/
  | negation
  deriving DecidableEq

/-- A time that a computation forms. -/
structure Time where
  operation : Operation
  value : Int
  deriving DecidableEq

namespace Time

/-- The sum of two times. -/
def sum (a b : Int) : Time :=
  ⟨.sum, a + b⟩

/-- The difference of two times. -/
def difference (a b : Int) : Time :=
  ⟨.difference, a - b⟩

/-- The distance of a time from zero. -/
def distance (a : Int) : Time :=
  ⟨.negation, a.natAbs⟩

@[simp]
theorem value_sum (a b : Int) : (sum a b).value = a + b := rfl

@[simp]
theorem value_difference (a b : Int) : (difference a b).value = a - b := rfl

@[simp]
theorem value_distance (a : Int) : (distance a).value = a.natAbs := rfl

/-- The time is in the range of 64 bits. -/
def fits (t : Time) : Bool :=
  Text.isWord t.value

/-- All of these times are in the range of 64 bits. -/
def AllFit (times : List Time) : Prop :=
  ∀ t ∈ times, t.fits = true

instance (times : List Time) : Decidable (AllFit times) :=
  inferInstanceAs (Decidable (∀ t ∈ times, _))

/-- The first time that is out of range. -/
def firstMisfit? (times : List Time) : Option Time :=
  times.find? (!·.fits)

theorem firstMisfit?_eq_none_iff {times : List Time} :
    firstMisfit? times = none ↔ AllFit times := by
  simp [firstMisfit?, AllFit]

end Time

/-- A time left the range of 64 bits. -/
structure Overflow where
  operation : Operation
  deriving DecidableEq

namespace Overflow

/-- The wording of an overflow. -/
def message (o : Overflow) : String :=
  match o.operation with
  | .sum => "attempt to add with overflow"
  | .difference => "attempt to subtract with overflow"
  | .negation => "attempt to negate with overflow"

/-- The result of a computation that forms these times, unless one does not fit. -/
def guard {α : Type} (times : List Time) (result : α) : Except Overflow α :=
  match Time.firstMisfit? times with
  | some t => .error ⟨t.operation⟩
  | none => .ok result

section Guard

variable {α : Type} {times : List Time} {result : α}

theorem guard_of_allFit (h : Time.AllFit times) : guard times result = .ok result := by
  rw [guard, Time.firstMisfit?_eq_none_iff.mpr h]

theorem exists_guard_eq_error (h : ¬ Time.AllFit times) :
    ∃ t ∈ times, guard times result = .error ⟨t.operation⟩ := by
  cases hfirst : Time.firstMisfit? times with
  | none => exact absurd (Time.firstMisfit?_eq_none_iff.mp hfirst) h
  | some t => exact ⟨t, List.mem_of_find?_eq_some hfirst, by rw [guard, hfirst]⟩

theorem guard_eq_ok_iff {x : α} :
    guard times result = .ok x ↔ Time.AllFit times ∧ result = x := by
  constructor
  · intro h
    by_cases hfit : Time.AllFit times
    · rw [guard_of_allFit hfit] at h
      exact ⟨hfit, Except.ok.inj h⟩
    · obtain ⟨t, _, herror⟩ := exists_guard_eq_error hfit
      rw [herror] at h
      cases h
  · rintro ⟨hfit, rfl⟩
    exact guard_of_allFit hfit

end Guard

end Overflow

/-- How sums and differences of times are held. -/
structure Reckoning where
  /-- What is left of an exact result. -/
  hold : Int → Int

namespace Reckoning

/-- As integers, without bounds. -/
def exact : Reckoning := ⟨fun t => t⟩

@[simp]
theorem hold_exact (t : Int) : exact.hold t = t := rfl

end Reckoning

end Rundown
