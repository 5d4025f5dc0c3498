/-!
# Numerals

Writing a natural number or an integer with decimal digits, and reading one
back.  A numeral that is read may carry one sign and must hold at least one
digit and nothing else.  Hexadecimal digits of either case are read as well.
-/

namespace Rundown.Text

/-- The digit of a number below ten. -/
def digitChar (n : Nat) : Char :=
  Char.ofNat (48 + n)

/-- A decimal digit of ASCII. -/
def isDigit (c : Char) : Bool :=
  '0' ≤ c && c ≤ '9'

/-- The decimal digits of a number, the most significant first. -/
def natChars (n : Nat) : List Char :=
  if n < 10 then [digitChar n] else natChars (n / 10) ++ [digitChar (n % 10)]
termination_by n
decreasing_by omega

/-- The number that a run of digits denotes, after the digits read so far. -/
def digitsFrom (value : Nat) (cs : List Char) : Nat :=
  cs.foldl (fun total c => 10 * total + (c.toNat - 48)) value

/-- The number that a run of digits denotes. -/
def digitsValue (cs : List Char) : Nat :=
  digitsFrom 0 cs

/-- A natural number in decimal. -/
def natText (n : Nat) : String :=
  String.ofList (natChars n)

/-- An integer in decimal, with a minus sign when it is negative. -/
def intText (n : Int) : String :=
  if n < 0 then "-" ++ natText n.natAbs else natText n.natAbs

/-- Fill up with `fill` at the left to at least `width` characters. -/
def padLeft (width : Nat) (fill : Char) (cs : List Char) : List Char :=
  List.replicate (width - cs.length) fill ++ cs

/-- A number with at least two digits. -/
def twoDigits (n : Nat) : List Char :=
  padLeft 2 '0' (natChars n)

/-- A sign, if there is one, and what follows it. -/
def splitSign : List Char → Bool × List Char
  | '-' :: rest => (true, rest)
  | '+' :: rest => (false, rest)
  | cs => (false, cs)

/-- The integer that a numeral denotes: an optional sign and at least one digit. -/
def readInt? (cs : List Char) : Option Int :=
  let (negative, digits) := splitSign cs
  if digits.isEmpty || !digits.all isDigit then none
  else some (if negative then -(digitsValue digits : Int) else digitsValue digits)

/-- The least and the greatest integer of 64 bits. -/
def wordRange : Int × Int := (-9223372036854775808, 9223372036854775807)

/-- The integer fits into 64 bits. -/
def isWord (n : Int) : Bool :=
  wordRange.1 ≤ n && n ≤ wordRange.2

/-- The integer of a numeral, when it fits into 64 bits. -/
def readWord? (s : String) : Option Int :=
  (readInt? s.toList).filter isWord

/-- The value of a hexadecimal digit. -/
def hexValue? (c : Char) : Option Nat :=
  if '0' ≤ c ∧ c ≤ '9' then some (c.toNat - 48)
  else if 'a' ≤ c ∧ c ≤ 'f' then some (c.toNat - 87)
  else if 'A' ≤ c ∧ c ≤ 'F' then some (c.toNat - 55)
  else none

/-- The number that a run of hexadecimal digits denotes, after the digits read so
far. -/
def hexFrom (value : Nat) : List Char → Option Nat
  | [] => some value
  | c :: rest => do hexFrom (16 * value + (← hexValue? c)) rest

theorem natChars_of_lt {n : Nat} (h : n < 10) : natChars n = [digitChar n] := by
  rw [natChars, if_pos h]

theorem natChars_ne_nil (n : Nat) : natChars n ≠ [] := by
  rw [natChars]
  split <;> simp

theorem toNat_digitChar {n : Nat} (h : n < 10) : (digitChar n).toNat = 48 + n := by
  have all : ∀ m ∈ List.range 10, (digitChar m).toNat = 48 + m := by decide
  exact all n (List.mem_range.2 h)

theorem digitsFrom_append (value : Nat) (xs ys : List Char) :
    digitsFrom value (xs ++ ys) = digitsFrom (digitsFrom value xs) ys := by
  simp [digitsFrom]

/-- The digits of a number denote that number. -/
theorem digitsValue_natChars (n : Nat) : digitsValue (natChars n) = n := by
  induction n using Nat.strongRecOn with
  | _ n ih =>
    rw [natChars]
    split
    · next small =>
      simp [digitsValue, digitsFrom, toNat_digitChar small]
    · next large =>
      have rest := ih (n / 10) (by omega)
      rw [digitsValue, digitsFrom_append]
      rw [digitsValue] at rest
      rw [rest]
      have digit := toNat_digitChar (Nat.mod_lt n (by omega : 10 > 0))
      simp [digitsFrom, digit]
      omega

end Rundown.Text
