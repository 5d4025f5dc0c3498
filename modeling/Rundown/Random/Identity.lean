import Rundown.Json.Writer
import Rundown.Random.Stream

/-!
# Random identities

An identity is 128 bits in hexadecimal digits, of which six bits say that the
others are random.
-/

namespace Rundown.Random

/-- The low hexadecimal digits of a word, the most significant first. -/
def hexDigits : Nat → Nat → List Char
  | 0, _ => []
  | count + 1, n => hexDigits count (n / 16) ++ [Json.hexChar (n % 16)]

/-- The digits of an identity in their groups, from four random words. -/
def identityChars (a b c d : Nat) : List Char :=
  hexDigits 8 a ++ '-' :: hexDigits 4 (b / 65536) ++ '-' :: '4' :: hexDigits 3 b ++
    '-' :: Json.hexChar (8 + c / 1073741824 % 4) :: hexDigits 3 (c / 65536) ++
    '-' :: hexDigits 4 c ++ hexDigits 8 d

/-- The identity at a place in a stream of words. -/
def identity (word : Nat → UInt32) (place : Nat) : String :=
  let bits := fun offset => (word (4 * place + offset)).toNat
  String.ofList (identityChars (bits 0) (bits 1) (bits 2) (bits 3))

end Rundown.Random
