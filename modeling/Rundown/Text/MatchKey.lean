import Rundown.Text.Blank
import Rundown.Text.Lowercase

/-!
# Keys for comparing names

Two ways in which texts of a catalog are compared.  The case key trims and
lowers.  The match key also drops spaces and common punctuation, so that two
spellings of an artist compare equal and a search finds a title in either.
-/

namespace Rundown.Text

/-- Characters that a match key leaves out, the space among them. -/
def matchPunctuation : List Char :=
  [' ', '\'', '"', '.', ',', '!', '?', '-', '_', '&', '/', '\\', ':', ';', '(', ')', '[', ']']

/-- A character that a match key leaves out. -/
def isMatchPunctuation (c : Char) : Bool :=
  matchPunctuation.contains c

/-- The characters of the match key: trimmed, lowered, and without punctuation. -/
def matchChars (cs : List Char) : List Char :=
  (lowerChars (dropEnds isBlank cs)).filter fun c => !isMatchPunctuation c

/-- The key under which names compare without regard to case and punctuation. -/
def matchKey (s : String) : String :=
  String.ofList (matchChars s.toList)

/-- The key under which names compare without regard to case. -/
def caseKey (s : String) : String :=
  lower (trim s)

/-- `needle` occurs in `hay` as a run of neighbouring characters. -/
def occursIn (needle : List Char) : List Char → Bool
  | [] => needle.isEmpty
  | c :: rest => needle.isPrefixOf (c :: rest) || occursIn needle rest

/-- `needle` occurs in `hay`. -/
def contains (hay needle : String) : Bool :=
  occursIn needle.toList hay.toList

/-- A search finds exactly the runs of neighbouring characters. -/
theorem occursIn_iff {needle hay : List Char} : occursIn needle hay = true ↔ needle <:+: hay := by
  induction hay with
  | nil => simp [occursIn]
  | cons c rest ih => simp [occursIn, ih, List.infix_cons_iff]

end Rundown.Text
