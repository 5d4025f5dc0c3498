import Rundown.Decimal.Binary
import Rundown.Reckoning
import Rundown.Track

/-!
# Scores of a candidate

Candidates are compared first by closeness, how near the total would come to the
target, and then by a combined score in which a violation of the separation
counts against a candidate and a fitting energy for it.
-/

namespace Rundown.Score

/-- Closeness of a total after one more track: the target less the distance from
it, so that hitting the target scores highest. -/
def closeness (r : Reckoning) (target total duration : Int) : Int :=
  let miss := r.hold (target - r.hold (total + duration))
  r.hold (target - r.hold miss.natAbs)

/-- A number held within two bounds. -/
def clampFloat (low high x : Float) : Float :=
  if x < low then low else if high < x then high else x

/-- The tempo with no energy. -/
def quietTempo : Float := 60

/-- The span of tempi from no energy to full energy. -/
def tempoSpan : Float := 120

/-- The energy of a tempo, from 0 to 100; an unknown tempo has full energy. -/
def energyOfTempo (bpm : Float) : Float :=
  if bpm ≤ 0 then 100 else clampFloat 0 100 ((bpm - quietTempo) / tempoSpan * 100)

/-- The place on a curve of `steps` points that belongs to a total. -/
def curveIndex (total target : Int) (steps : Nat) : Nat :=
  let place := Decimal.ofInt (max total 0) / Decimal.ofInt target * Decimal.ofInt steps
  min (Decimal.truncate place).toNat (steps - 1)

/-- The energy that a curve asks for at a total; past the target it stays at its
last point.  Without a curve or a target nothing is asked for. -/
def wantedEnergy? (curve : List Nat) (total target : Int) : Option Float :=
  if curve.isEmpty || target ≤ 0 then none
  else some (Decimal.ofInt ((curve[curveIndex total target curve.length]?).getD 0))

/-- How well the energy of a track fits: 100 less the distance, or 0 when none is
asked for. -/
def energyFit (t : Track) (curve : List Nat) (total target : Int) : Float :=
  match wantedEnergy? curve total target with
  | some wanted => 100 - (energyOfTempo t.bpm - wanted).abs
  | none => 0

/-- The score of a candidate that violates nothing and has no energy. -/
def cleanScore : Float := 1000000

/-- The score that decides between equally close candidates. -/
def combined (violation : Int) (energy : Float) : Float :=
  (cleanScore - Decimal.ofInt violation) + energy

end Rundown.Score
