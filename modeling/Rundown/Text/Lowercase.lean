import Rundown.Text.CaseTable

/-!
# Lowercasing

A text is lowered character by character with two departures from a plain
table: the capital I with a dot above becomes two characters, and a capital
sigma becomes the final sigma when it ends a word, that is, when a cased letter
stands before it and none stands after it, looking through the characters that
carry no case of their own.
-/

namespace Rundown.Text

/-- Capital sigma, the only letter whose lowercase depends on its place. -/
def capitalSigma : Char := 'Σ'

/-- The code point lies in one of the ranges. -/
def inRanges (ranges : List (Nat × Nat)) (code : Nat) : Bool :=
  ranges.any fun range => range.1 ≤ code && code ≤ range.2

/-- A letter with case. -/
def isCased (c : Char) : Bool :=
  inRanges casedRanges c.toNat

/-- A character that is looked through when the neighbouring letter is sought. -/
def isCaseIgnorable (c : Char) : Bool :=
  inRanges caseIgnorableRanges c.toNat

/-- The nearest character that is not looked through is a letter with case. -/
def nearestIsCased (cs : List Char) : Bool :=
  match cs.dropWhile isCaseIgnorable with
  | c :: _ => isCased c
  | [] => false

/-- The lowercase of one character, apart from its surroundings. -/
def lowerChar (c : Char) : List Char :=
  if c.toNat < 128 then [c.toLower]
  else if c.toNat = 0x130 then ['i', Char.ofNat 0x307]
  else
    match lowerRuns.find? (·.covers c.toNat) with
    | some run => [Char.ofNat (run.lower c.toNat)]
    | none => [c]

/-- Lower `rest`, of which `before` is what came earlier, nearest first. -/
def lowerFrom (before : List Char) : List Char → List Char
  | [] => []
  | c :: rest =>
      let lowered :=
        if c = capitalSigma then
          if nearestIsCased before && !nearestIsCased rest then ['ς'] else ['σ']
        else lowerChar c
      lowered ++ lowerFrom (c :: before) rest

/-- The lowercase of a list of characters. -/
def lowerChars (cs : List Char) : List Char :=
  lowerFrom [] cs

/-- The lowercase of a text. -/
def lower (s : String) : String :=
  String.ofList (lowerChars s.toList)

/-- Lowercasing that changes the letters A to Z only. -/
def lowerAscii (s : String) : String :=
  String.ofList (s.toList.map Char.toLower)

end Rundown.Text
