/-!
# Blank characters and the ends of a text

The blank characters are those of the property White_Space.  Trimming removes
them from both ends of a text and leaves the middle alone; a text is blank when
nothing else is left.
-/

namespace Rundown.Text

/-- The character has the property White_Space. -/
def isBlank (c : Char) : Bool :=
  let code := c.toNat
  (9 ≤ code && code ≤ 13) || code == 32 || code == 0x85 || code == 0xA0 || code == 0x1680 ||
    (0x2000 ≤ code && code ≤ 0x200A) || code == 0x2028 || code == 0x2029 || code == 0x202F ||
    code == 0x205F || code == 0x3000

/-- Drop the longest run at the end of a list that satisfies `p`. -/
def dropTrailing {α : Type} (p : α → Bool) (items : List α) : List α :=
  (items.reverse.dropWhile p).reverse

/-- Drop from both ends what satisfies `p`. -/
def dropEnds {α : Type} (p : α → Bool) (items : List α) : List α :=
  dropTrailing p (items.dropWhile p)

/-- The text without blanks at its ends. -/
def trim (s : String) : String :=
  String.ofList (dropEnds isBlank s.toList)

/-- Nothing but blanks. -/
def isBlankText (s : String) : Bool :=
  s.toList.all isBlank

/-- The trimmed text, when anything is left of it. -/
def nonBlank? (s : String) : Option String :=
  let kept := trim s
  if kept.isEmpty then none else some kept

/-- The pieces of a list between the elements that equal `mark`. -/
def piecesBetween {α : Type} [BEq α] (mark : α) : List α → List (List α)
  | [] => [[]]
  | x :: rest =>
      if x == mark then [] :: piecesBetween mark rest
      else
        match piecesBetween mark rest with
        | first :: others => (x :: first) :: others
        | [] => [[x]]

/-- The trimmed pieces between commas, without the blank ones. -/
def commaParts (s : String) : List String :=
  (piecesBetween ',' s.toList).filterMap fun piece => nonBlank? (String.ofList piece)

/-- A text that `nonBlank?` returns has at least one character. -/
theorem nonBlank?_ne_empty {s t : String} (h : nonBlank? s = some t) : t.isEmpty = false := by
  simp only [nonBlank?] at h
  split at h
  · cases h
  · next left =>
    cases h
    exact eq_false_of_ne_true left

end Rundown.Text
