import Rundown.Text.Blank
import Rundown.Text.Percent

/-!
# URIs of files

A URI of a file has a path and perhaps parameters.  Between the mark and the path
an authority may stand, which has to be the machine itself.  Parameters follow a
question mark, and a fragment after a number sign is passed over.  Escapes are
undone in each part by itself, and the byte zero ends the part that it stands in.
-/

namespace Rundown.Command

/-- The path and the parameters of a URI. -/
structure FileUri where
  /-- The path, if its bytes make a text. -/
  path : Option String
  /-- Names and values, none of the names empty. -/
  parameters : List (String × String)
  deriving DecidableEq

namespace FileUri

/-- The mark of a URI of a file. -/
def mark : List Char := "file:".toList

/-- The text of a part, if it makes one. -/
def part? (cs : List Char) : Option String :=
  Text.ofBytes? ((Text.percentBytes cs).takeWhile (· != 0))

/-- The text of a name or a value.  Bytes that make no text become one that no
parameter is called and no value can be. -/
def part (cs : List Char) : String :=
  (part? cs).getD "\uFFFD"

/-- What stands before a character and what stands after it. -/
def splitAt (c : Char) (cs : List Char) : List Char × List Char :=
  (cs.takeWhile (· != c), (cs.dropWhile (· != c)).drop 1)

/-- Drop an authority, if it is the machine itself. -/
def dropAuthority? : List Char → Option (List Char)
  | '/' :: '/' :: rest =>
      let authority := rest.takeWhile (· != '/')
      if authority = [] || authority = "localhost".toList then
        some (rest.drop authority.length)
      else none
  | cs => some cs

/-- The parameters that are written between ampersands, without the nameless. -/
def parametersOf (cs : List Char) : List (String × String) :=
  ((Text.piecesBetween '&' cs).map fun piece =>
    let (name, value) := splitAt '=' piece
    (part name, part value)).filter (!·.1.isEmpty)

/-- The URI that follows the mark. -/
def read? (cs : List Char) : Option FileUri := do
  let unmarked ← dropAuthority? cs
  let (path, query) := splitAt '?' (unmarked.takeWhile (· != '#'))
  some ⟨part? path, parametersOf query⟩

/-- The values of a parameter, in the order written. -/
def values (uri : FileUri) (name : String) : List String :=
  (uri.parameters.filter (·.1 == name)).map (·.2)

end FileUri

end Rundown.Command
