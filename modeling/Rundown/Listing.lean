import Rundown.Decimal.Shortest
import Rundown.Duration
import Rundown.Sequence.Build

/-!
# Listings

A sequence as text: a numbered line for each placement, a line with the total,
and a line for each warning.
-/

namespace Rundown.Listing

/-- A text, or another one when it is blank. -/
def shown (text other : String) : String :=
  if Text.isBlankText text then other else text

/-- Fill up with spaces at the left. -/
def padded (width : Nat) (text : String) : String :=
  String.ofList (Text.padLeft width ' ' text.toList)

/-- The wording of a warning. -/
def describe : Warning → String
  | .underfilled total lowerBound =>
      "underfilled: " ++ Duration.text total ++ " of at least " ++ Duration.text lowerBound
  | .usedFallback => "fallback blocks supplied tracks"
  | .quotaUnmet field value share least =>
      "quota " ++ field ++ "=" ++ value ++ " at " ++ Decimal.wholeText share ++ "% (minimum " ++
        Decimal.wholeText least ++ "%)"
  | .separationRelaxed => "separation relaxed to fill the block"
  | .trimmed track => "removed " ++ track ++ " to correct overshoot"

/-- The line of a placement with its number in the listing. -/
def line (number : Nat) (p : Placement) : String :=
  padded 2 (Text.natText number) ++ ". " ++ padded 5 (Duration.text p.startsAt) ++ "  " ++
    (if p.isAd then "[AD] " else "") ++ shown p.track.artist "Unknown Artist" ++ " - " ++
    shown p.track.title p.track.id ++ " (" ++ Duration.text p.track.duration ++ ")"

/-- The line with the total and the counts. -/
def totalLine (s : Sequence) : String :=
  "Total: " ++ Duration.text s.total ++ " (" ++ Text.natText s.musicCount ++ " tracks, " ++
    Text.natText s.adCount ++ " interstitials)"

/-- The lines of a listing. -/
def lines (s : Sequence) : List String :=
  (if s.isEmpty then ["(no placements)"] else []) ++
    (s.placements.mapIdx fun index p => line (index + 1) p) ++ [totalLine s] ++
    s.warnings.map fun w => "Warning: " ++ describe w

/-- A sequence as text, each line ended. -/
def text (s : Sequence) : String :=
  String.join ((lines s).map (· ++ "\n"))

end Rundown.Listing
