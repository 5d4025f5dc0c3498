import Rundown.Random.Stream

/-!
# Shuffling

A list is put in a random order by exchanging each place, from the last one
down, with a place drawn from those up to it.  A number below a bound is drawn
as the high half of the product of the bound and a random word; words that would
make some numbers likelier than others are drawn again.
-/

namespace Rundown.Random

/-- The number of leading zero bits of a word that is not zero. -/
def leadingZeros (n : Nat) : Nat :=
  31 - n.log2

/-- The greatest low half of a product that does not favour any number. -/
def fairZone (bound : Nat) : Nat :=
  (bound <<< leadingZeros bound) % wordCount - 1

/-- Draw a number below a bound from the words at a place on, with the place
after it.  At most `tries` words are drawn. -/
def drawBelow (word : Nat → UInt32) (bound : Nat) : Nat → Nat → Nat × Nat
  | 0, place => (0, place)
  | tries + 1, place =>
      let product := (word place).toNat * bound
      if product % wordCount ≤ fairZone bound then (product / wordCount, place + 1)
      else drawBelow word bound tries (place + 1)

/-- The most words drawn for one number; that all of them are refused is less
likely than two to the power -1000. -/
def greatestTries : Nat := 1000

/-- Exchange the places below `count` that are not settled yet. -/
def shuffleBelow {α : Type} (word : Nat → UInt32) :
    (count : Nat) → Nat → Array α → Array α
  | 0, _, items => items
  | count + 1, place, items =>
      if count = 0 then items
      else
        let (other, after) := drawBelow word (count + 1) greatestTries place
        shuffleBelow word count after (items.swapIfInBounds count other)

/-- A list in the order that a stream of words gives it. -/
def shuffle {α : Type} (word : Nat → UInt32) (items : List α) : List α :=
  (shuffleBelow word items.length 0 items.toArray).toList

end Rundown.Random
