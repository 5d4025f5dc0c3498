import Rundown.Catalog.Basic
import Rundown.Random.Shuffle

/-!
# The order of items

A catalog serves the tracks that meet a query as they are stored or in a random
order that a seed fixes.  Shuffling neither loses nor adds a track.
-/

namespace Rundown

/-- In which order the items that meet a query are served. -/
inductive ItemOrder where
  /-- As they are stored. -/
  | stored
  /-- Shuffled afresh for each query by the words of a seed. -/
  | shuffled (seed : Nat)

/-- Tracks in the order in which they are served. -/
def ItemOrder.arrange (order : ItemOrder) (tracks : List Track) : List Track :=
  match order with
  | .stored => tracks
  | .shuffled seed => Random.shuffle (Random.words seed) tracks

/-- The same catalog with its tracks served in an order. -/
def Catalog.inOrder (c : Catalog) (order : ItemOrder) : Catalog where
  tracks scope q := (c.tracks scope q).map order.arrange
  block? := c.block?

end Rundown
