import Rundown.Sequence.Placement

/-!
# Trimming an overshoot

When a block ends past its target, one music placement may be removed: the one
whose removal brings the total nearest to the target, and only if that is
strictly nearer than before.  The only music placement stays, and so does a
placement between two of the same track.
-/

namespace Rundown.Trim

/-- A placement that may be removed, and the distance from the target without it. -/
structure Removal where
  index : Nat
  distance : Int
  deriving DecidableEq, Inhabited

/-- The placement between these two stands between two of the same track. -/
def joinsRepeats (before after : Option Placement) : Bool :=
  match before, after with
  | some b, some a => b.track.id == a.track.id
  | _, _ => false

/-- The removals that come into question from a position on. -/
def removalsFrom (r : Reckoning) (total target : Int) (index : Nat)
    (before : Option Placement) : List Placement → List Removal
  | [] => []
  | p :: rest =>
      let later := removalsFrom r total target (index + 1) (some p) rest
      if p.isAd || joinsRepeats before rest.head? then later
      else
        let miss := r.hold (r.hold (total - p.track.duration) - target)
        ⟨index, r.hold miss.natAbs⟩ :: later

/-- The removal with the least distance, the first one of equals. -/
def nearest? : List Removal → Option Removal
  | [] => none
  | first :: rest =>
      some (rest.foldl (fun best x => if x.distance < best.distance then x else best) first)

/-- The removal that corrects an overshoot, if one does. -/
def removal? (r : Reckoning) (target : Int) (placements : List Placement) : Option Removal :=
  let total := Placement.total r placements
  let overshoot := r.hold (total - target)
  if overshoot ≤ 0 || (Placement.music placements).length ≤ 1 then none
  else
    (nearest? (removalsFrom r total target 0 none placements)).filter (·.distance < overshoot)

/-- The placements after the removal that corrects an overshoot, and what was
removed. -/
def overshoot (r : Reckoning) (target : Int) (placements : List Placement) :
    List Placement × Option Placement :=
  match removal? r target placements with
  | some removal => (placements.eraseIdx removal.index, placements[removal.index]?)
  | none => (placements, none)

end Rundown.Trim
