import Rundown.Duration
import Rundown.Proofs.Labels

/-!
# Written durations are read back

The parts of a written duration are the digits between its colons.  `Layout` says which
parts there may be, without the arithmetic that yields them: minutes and seconds, or
hours, minutes and seconds, where every part but the first has two digits.  A text of
this layout falls into the same parts again, so what the parts amount to can be read
from it.  Nothing is lost but the fraction of a second; the sign is kept even where no
whole second is left.
-/

namespace Rundown

namespace Text

/-! ## Plain numerals -/

/-- A numeral without padding. -/
structure IsPlain (cs : List Char) : Prop where
  nonempty : cs ≠ []
  digits : ∀ c ∈ cs, isDigit c = true
  /-- Only a lone zero starts with a zero. -/
  head_ne : 1 < cs.length → cs.head? ≠ some '0'

theorem head?_natChars {n : Nat} (h : 10 ≤ n) : (natChars n).head? = (natChars (n / 10)).head? := by
  rw [natChars, if_neg (by omega), List.head?_append_of_ne_nil _ (natChars_ne_nil _)]

theorem head?_natChars_ne_zero {n : Nat} (h : 0 < n) : (natChars n).head? ≠ some '0' := by
  -- On the numeral without its last digit, which leaves the head alone.
  induction n using natChars.induct with
  | case1 n hsmall =>
      rw [natChars_of_lt hsmall, List.head?_cons]
      intro hzero
      have hcode := congrArg Char.toNat (Option.some.inj hzero)
      rw [toNat_digitChar hsmall] at hcode
      change 48 + n = 48 at hcode
      omega
  | case2 n hlarge ih =>
      rw [head?_natChars (by omega)]
      exact ih (by omega)

theorem isPlain_natChars (n : Nat) : IsPlain (natChars n) where
  nonempty := natChars_ne_nil n
  digits := fun _ => isDigit_of_mem_natChars
  head_ne := by
    intro hlong
    apply head?_natChars_ne_zero
    by_contra hzero
    rw [natChars_of_lt (by omega), List.length_singleton] at hlong
    exact absurd hlong (by decide)

/-! ## Padded numerals -/

/-- A numeral of two digits that counts less than sixty. -/
structure IsSixtieth (cs : List Char) : Prop where
  length_eq : cs.length = 2
  digits : ∀ c ∈ cs, isDigit c = true
  value_lt : digitsValue cs < 60

/-- Leading zeros do not count. -/
theorem digitsValue_padLeft (width : Nat) (cs : List Char) :
    digitsValue (padLeft width '0' cs) = digitsValue cs := by
  have hzeros : ∀ k, digitsFrom 0 (List.replicate k '0') = 0 := by
    intro k
    induction k with
    | zero => rfl
    | succ k ih => exact ih
  unfold digitsValue padLeft
  rw [digitsFrom_append, hzeros]

theorem digitsValue_twoDigits (n : Nat) : digitsValue (twoDigits n) = n := by
  rw [twoDigits, digitsValue_padLeft, digitsValue_natChars]

theorem length_twoDigits {n : Nat} (h : n < 100) : (twoDigits n).length = 2 := by
  have hlength : (natChars n).length ≤ 2 := by
    rw [natChars]
    split
    · simp
    · rw [natChars_of_lt (by omega)]
      simp
  simp only [twoDigits, padLeft, List.length_append, List.length_replicate]
  omega

theorem isDigit_of_mem_twoDigits {n : Nat} {c : Char} (h : c ∈ twoDigits n) :
    isDigit c = true := by
  rcases List.mem_append.mp h with hzero | hdigit
  · rw [(List.mem_replicate.mp hzero).2]
    decide
  · exact isDigit_of_mem_natChars hdigit

theorem isSixtieth_twoDigits {n : Nat} (h : n < 60) : IsSixtieth (twoDigits n) where
  length_eq := length_twoDigits (by omega)
  digits := fun _ => isDigit_of_mem_twoDigits
  value_lt := by rwa [digitsValue_twoDigits]

end Text

namespace Duration

open Text

/-! ## The parts of a written duration -/

/-- The parts that a written duration may have. -/
inductive Layout : List (List Char) → Prop
  /-- Minutes of less than an hour, and seconds. -/
  | short {minutes seconds : List Char} (plain : IsPlain minutes)
      (below : digitsValue minutes < 60) (sixtieth : IsSixtieth seconds) :
      Layout [minutes, seconds]
  /-- At least one hour, minutes and seconds. -/
  | long {hours minutes seconds : List Char} (plain : IsPlain hours)
      (positive : 0 < digitsValue hours) (minutely : IsSixtieth minutes)
      (secondly : IsSixtieth seconds) : Layout [hours, minutes, seconds]

/-- What the parts amount to, when each one counts sixty of the next one. -/
def sexagesimal (parts : List (List Char)) : Nat :=
  parts.foldl (fun total part => 60 * total + digitsValue part) 0

/-- Whether a text has a minus sign, and what the parts between its colons amount to. -/
def read (s : String) : Bool × Nat :=
  match s.toList with
  | '-' :: clock => (true, sexagesimal (clock.splitOn ':'))
  | clock => (false, sexagesimal (clock.splitOn ':'))

namespace Layout

variable {parts : List (List Char)}

/-- There are three parts exactly if they amount to an hour. -/
theorem length_eq_three_iff (h : Layout parts) : parts.length = 3 ↔ 3600 ≤ sexagesimal parts := by
  cases h with
  | short plain below sixtieth =>
      have := sixtieth.value_lt
      simp [sexagesimal]
      omega
  | long plain positive minutely secondly =>
      simp [sexagesimal]
      omega

theorem isDigit_of_mem (h : Layout parts) {part : List Char} (hpart : part ∈ parts) :
    ∀ c ∈ part, isDigit c = true := by
  cases h with
  | short plain below sixtieth =>
      rcases List.mem_pair.mp hpart with rfl | rfl
      · exact plain.digits
      · exact sixtieth.digits
  | long plain positive minutely secondly =>
      rcases List.mem_cons.mp hpart with rfl | hpart
      · exact plain.digits
      rcases List.mem_pair.mp hpart with rfl | rfl
      · exact minutely.digits
      · exact secondly.digits

theorem splitOn_intercalate (h : Layout parts) : ([':'].intercalate parts).splitOn ':' = parts := by
  apply List.splitOn_intercalate
  · intro part hpart hcolon
    exact absurd (h.isDigit_of_mem hpart ':' hcolon) (by decide)
  · cases h <;> exact List.cons_ne_nil _ _

theorem head?_ne_minus (h : Layout parts) : ([':'].intercalate parts).head? ≠ some '-' := by
  obtain ⟨first, rest, rfl, hfirst⟩ : ∃ first rest, parts = first :: rest ∧ IsPlain first := by
    cases h with
    | short plain below sixtieth => exact ⟨_, _, rfl, plain⟩
    | long plain positive minutely secondly => exact ⟨_, _, rfl, plain⟩
  obtain ⟨c, cs, rfl⟩ := List.exists_cons_of_ne_nil hfirst.nonempty
  have hhead : ([':'].intercalate ((c :: cs) :: rest)).head? = some c := by
    cases rest <;> simp [List.intercalate]
  rw [hhead]
  rintro ⟨rfl⟩
  exact absurd (hfirst.digits '-' List.mem_cons_self) (by decide)

/-- The sign and the parts of a text of this layout are found again. -/
theorem read_ofList (h : Layout parts) (negative : Bool) :
    read (String.ofList ((if negative then ['-'] else []) ++ [':'].intercalate parts)) =
      (negative, sexagesimal parts) := by
  unfold read
  rw [String.toList_ofList]
  cases negative with
  | true =>
      change (true, sexagesimal (([':'].intercalate parts).splitOn ':')) = _
      rw [h.splitOn_intercalate]
  | false =>
      change (match [':'].intercalate parts with
        | '-' :: clock => (true, sexagesimal (clock.splitOn ':'))
        | clock => (false, sexagesimal (clock.splitOn ':'))) = _
      split
      · next clock hclock => exact absurd (by rw [hclock]; rfl) h.head?_ne_minus
      · rw [h.splitOn_intercalate]

end Layout

/-! ## What is written -/

theorem exists_layout_clockChars (seconds : Nat) :
    ∃ parts, clockChars seconds = [':'].intercalate parts ∧ Layout parts ∧
      sexagesimal parts = seconds := by
  have hseconds := isSixtieth_twoDigits (Nat.mod_lt seconds (by decide : 0 < 60))
  simp only [clockChars]
  split
  · next hlong =>
      refine ⟨_, ?_, .long (isPlain_natChars (seconds / 3600)) ?_
        (isSixtieth_twoDigits (n := seconds % 3600 / 60) (by omega)) hseconds, ?_⟩
      · simp [List.intercalate]
      · rwa [digitsValue_natChars]
      · simp only [sexagesimal, List.foldl_cons, List.foldl_nil, digitsValue_natChars,
          digitsValue_twoDigits]
        omega
  · next hshort =>
      refine ⟨_, ?_, .short (isPlain_natChars (seconds % 3600 / 60)) ?_ hseconds, ?_⟩
      · simp [List.intercalate]
      · rw [digitsValue_natChars]
        omega
      · simp only [sexagesimal, List.foldl_cons, List.foldl_nil, digitsValue_natChars,
          digitsValue_twoDigits]
        omega

/-- A written duration is one of the layout, with a sign in front if it is negative. -/
theorem exists_layout_text (ms : Int) :
    ∃ parts, text ms = String.ofList ((if ms < 0 then ['-'] else []) ++ [':'].intercalate parts) ∧
      Layout parts ∧ sexagesimal parts = ms.natAbs / 1000 := by
  obtain ⟨parts, hchars, hlayout, hvalue⟩ := exists_layout_clockChars (ms.natAbs / 1000)
  refine ⟨parts, ?_, hlayout, hvalue⟩
  simp only [text, hchars]
  split <;> rfl

theorem read_text (ms : Int) : read (text ms) = (decide (ms < 0), ms.natAbs / 1000) := by
  obtain ⟨parts, htext, hlayout, hvalue⟩ := exists_layout_text ms
  have hread := hlayout.read_ofList (decide (ms < 0))
  simp only [decide_eq_true_eq] at hread
  rw [htext, hread, hvalue]

/-- Two durations are written alike exactly if they have the same sign and the same whole
seconds. -/
theorem text_eq_text_iff (ms other : Int) :
    text ms = text other ↔
      (ms < 0 ↔ other < 0) ∧ ms.natAbs / 1000 = other.natAbs / 1000 := by
  constructor
  · intro halike
    have hread := congrArg read halike
    rw [read_text, read_text, Prod.mk.injEq, decide_eq_decide] at hread
    exact hread
  · rintro ⟨hsign, hseconds⟩
    simp only [text, hsign, hseconds]

/-- A duration is written in minutes and seconds or, from an hour on, in hours, minutes
and seconds, with a sign exactly if it is negative.  What is read from this text is the
sign and the whole seconds, and two durations that agree in both have the same text. -/
theorem text_reads_back (ms : Int) :
    (∃ parts, (text ms).toList = (if ms < 0 then ['-'] else []) ++ [':'].intercalate parts ∧
      Layout parts ∧ (parts.length = 3 ↔ 3600000 ≤ ms.natAbs) ∧
      sexagesimal parts = ms.natAbs / 1000) ∧
    read (text ms) = (decide (ms < 0), ms.natAbs / 1000) ∧
    ∀ other, text ms = text other ↔
      (ms < 0 ↔ other < 0) ∧ ms.natAbs / 1000 = other.natAbs / 1000 := by
  obtain ⟨parts, htext, hlayout, hvalue⟩ := exists_layout_text ms
  refine ⟨⟨parts, ?_, hlayout, ?_, hvalue⟩, read_text ms, text_eq_text_iff ms⟩
  · rw [htext, String.toList_ofList]
  · rw [hlayout.length_eq_three_iff, hvalue]
    omega

end Duration

end Rundown
