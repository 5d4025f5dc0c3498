/-!
# Powers of two and ten

The two bases between which numbers are converted.
-/

namespace Rundown.Decimal

/-- A power of two. -/
def twoTo (n : Nat) : Nat := Nat.pow 2 n

/-- A power of ten. -/
def tenTo (n : Nat) : Nat := Nat.pow 10 n

end Rundown.Decimal
