import Rundown.Storage.Bytes

/-!
# Pages of a database file

A SQLite file consists of pages of one size.  The rows of a table stand in the
leaves of a tree of pages; a row that is too long for its page goes on in a chain
of further pages.
-/

namespace Rundown.Storage

/-- A database file. -/
structure Pages where
  bytes : ByteArray
  /-- The size of a page. -/
  size : Nat
  /-- How many bytes of a page hold content. -/
  usable : Nat

namespace Pages

/-- The words at the start of every database file. -/
def signature : ByteArray := "SQLite format 3\x00".toUTF8

/-- The greatest size of a page, which its two bytes cannot hold. -/
def greatestSize : Nat := 65536

/-- The pages of a file, if it is a database whose texts are written in UTF-8. -/
def ofBytes? (bytes : ByteArray) : Option Pages :=
  let written := numberAt bytes 16 2
  let size := if written = 1 then greatestSize else written
  let reserved := byteAt bytes 20
  let encoding := numberAt bytes 56 4
  if bytes.extract 0 16 == signature && 512 ≤ size && reserved + 480 ≤ size && encoding ≤ 1 then
    some ⟨bytes, size, size - reserved⟩
  else none

/-- The number of pages. -/
def count (p : Pages) : Nat :=
  p.bytes.size / p.size

/-- Where a page starts. -/
def start (p : Pages) (page : Nat) : Nat :=
  (page - 1) * p.size

/-- Where the header of a page of a tree starts; the first page begins with the
header of the file. -/
def header (p : Pages) (page : Nat) : Nat :=
  if page = 1 then 100 else p.start page

/-- How many bytes of a row of a length stand in its leaf. -/
def localSize (p : Pages) (length : Nat) : Nat :=
  let most := p.usable - 35
  let least := (p.usable - 12) * 32 / 255 - 23
  let fitting := least + (length - least) % (p.usable - 4)
  if length ≤ most then length else if fitting ≤ most then fitting else least

/-- The rest of a row in a chain of at most `fuel` pages. -/
def chain (p : Pages) : Nat → Nat → Nat → ByteArray
  | 0, _, _ => ByteArray.empty
  | fuel + 1, page, length =>
      if page = 0 || length = 0 then ByteArray.empty
      else
        let place := p.start page
        let here := min length (p.usable - 4)
        p.bytes.extract (place + 4) (place + 4 + here) ++
          p.chain fuel (numberAt p.bytes place 4) (length - here)

/-- The row of a cell of a leaf. -/
def rowAt (p : Pages) (cell : Nat) : ByteArray :=
  let (length, afterLength) := varyingAt p.bytes cell
  let (_, place) := varyingAt p.bytes afterLength
  let here := p.localSize length
  p.bytes.extract place (place + here) ++
    (if here < length then
      p.chain p.count (numberAt p.bytes (place + here) 4) (length - here)
    else ByteArray.empty)

/-- Where the cells of a page start, given the size of its header. -/
def cells (p : Pages) (page headerSize : Nat) : List Nat :=
  let header := p.header page
  (List.range (numberAt p.bytes (header + 3) 2)).map fun index =>
    p.start page + numberAt p.bytes (header + headerSize + 2 * index) 2

/-- The rows in the trees below some pages, of which at most `fuel` are visited;
nothing when a page belongs to no table. -/
def rowsBelow (p : Pages) : Nat → List Nat → Option (List ByteArray)
  | _, [] => some []
  | 0, _ :: _ => none
  | fuel + 1, page :: rest =>
      match byteAt p.bytes (p.header page) with
      | 13 => (p.rowsBelow fuel rest).map ((p.cells page 8).map p.rowAt ++ ·)
      | 5 =>
          let last := numberAt p.bytes (p.header page + 8) 4
          p.rowsBelow fuel
            ((p.cells page 12).map (fun cell => numberAt p.bytes cell 4) ++ last :: rest)
      | _ => none

/-- The rows of the table whose tree starts at a page. -/
def rows? (p : Pages) (root : Nat) : Option (List ByteArray) :=
  p.rowsBelow p.count [root]

end Pages

end Rundown.Storage
