import Rundown.Catalog.Cell
import Rundown.Storage.Bytes

/-!
# Stored rows

A row starts with the kinds of its cells; their contents follow without gaps.
-/

namespace Rundown.Storage

/-- The content of a cell of a kind at a place, with the place after it. -/
def cellAt (bytes : ByteArray) (kind place : Nat) : Option (Cell × Nat) :=
  let whole := fun size => some (Cell.whole (signedAt bytes place size), place + size)
  match kind with
  | 0 => some (.empty, place)
  | 1 => whole 1
  | 2 => whole 2
  | 3 => whole 3
  | 4 => whole 4
  | 5 => whole 6
  | 6 => whole 8
  | 7 => some (.real (Float.ofBits (UInt64.ofNat (numberAt bytes place 8))), place + 8)
  | 8 => some (.whole 0, place)
  | 9 => some (.whole 1, place)
  | 10 => none
  | 11 => none
  | _ =>
      let size := (kind - 12) / 2
      (String.fromUTF8? (bytes.extract place (place + size))).map fun s => (.text s, place + size)

/-- The kinds of the cells, from a place up to the end of the header, of which
there are at most `fuel`. -/
def kindsFrom (bytes : ByteArray) (stop : Nat) : Nat → Nat → List Nat
  | 0, _ => []
  | fuel + 1, place =>
      if stop ≤ place then []
      else
        let (kind, after) := varyingAt bytes place
        kind :: kindsFrom bytes stop fuel after

/-- The cells of some kinds from a place on. -/
def cellsFrom (bytes : ByteArray) : List Nat → Nat → Option (List Cell)
  | [], _ => some []
  | kind :: rest, place => do
      let (cell, after) ← cellAt bytes kind place
      let more ← cellsFrom bytes rest after
      some (cell :: more)

/-- The cells of a row. -/
def cells? (bytes : ByteArray) : Option (List Cell) :=
  let (stop, place) := varyingAt bytes 0
  cellsFrom bytes (kindsFrom bytes stop stop place) stop

end Rundown.Storage
