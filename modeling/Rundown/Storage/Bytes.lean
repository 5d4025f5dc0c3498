import Rundown.Decimal.Power

/-!
# Numbers written in bytes

Numbers of a fixed count of bytes have the most significant byte first.  Numbers
of a varying count have seven bits in each byte, whose eighth bit says that more
bytes follow; a ninth byte has eight bits and is the last.  Bytes beyond the end
count as zero.
-/

namespace Rundown.Storage

/-- The byte at a place, zero beyond the end. -/
def byteAt (bytes : ByteArray) (place : Nat) : Nat :=
  ((bytes[place]?).map UInt8.toNat).getD 0

/-- The number that `count` bytes at a place write. -/
def numberAt (bytes : ByteArray) (place : Nat) : Nat → Nat
  | 0 => 0
  | count + 1 => numberAt bytes place count * 256 + byteAt bytes (place + count)

/-- The same, where the upper half of the numbers stands for the negative ones. -/
def signedAt (bytes : ByteArray) (place count : Nat) : Int :=
  let n := numberAt bytes place count
  if 2 * n < Decimal.twoTo (8 * count) then n else (n : Int) - Decimal.twoTo (8 * count)

/-- Go on with a number of varying length, of at most `left` more bytes before the
ninth one.  The result holds the place after it. -/
def varyingFrom (bytes : ByteArray) : Nat → Nat → Nat → Nat × Nat
  | 0, place, n => (n * 256 + byteAt bytes place, place + 1)
  | left + 1, place, n =>
      let byte := byteAt bytes place
      if byte < 128 then (n * 128 + byte, place + 1)
      else varyingFrom bytes left (place + 1) (n * 128 + (byte - 128))

/-- The number of varying length at a place, with the place after it. -/
def varyingAt (bytes : ByteArray) (place : Nat) : Nat × Nat :=
  varyingFrom bytes 8 place 0

end Rundown.Storage
