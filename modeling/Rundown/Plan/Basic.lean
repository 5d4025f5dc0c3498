import Rundown.Decimal.Binary
import Rundown.Track

/-!
# The plan of a block

A plan says how long a block should be and what may be played in it.  It is the
fully defaulted form of the documents of a block, and the only thing that the
later stages look at.
-/

namespace Rundown

/-- Inclusive bounds of a year; an absent bound does not bind. -/
structure YearRange where
  min : Option Int
  max : Option Int
  deriving DecidableEq, Inhabited

/-- The year lies within the bounds.  A missing year counts as year zero. -/
def YearRange.contains (r : YearRange) (year : Option Int) : Bool :=
  let y := year.getD 0
  r.min.all (· ≤ y) && r.max.all (y ≤ ·)

/-- Inclusive bounds of a tempo; an absent bound does not bind. -/
structure TempoRange where
  min : Option Float
  max : Option Float
  deriving Inhabited

/-- What the tracks of a block must be like. -/
structure Criteria where
  textSearch : Option String
  genre : Option String
  artist : Option String
  mood : Option String
  language : Option String
  tempo : Option TempoRange
  year : Option YearRange
  era : Option YearRange
  excludeExplicit : Bool
  sourcePlaylists : List String
  includePublicArchive : Bool
  deriving Inhabited

namespace Criteria

/-- Some criterion is left that a catalog does not decide. -/
def needsCheck (c : Criteria) : Bool :=
  c.year.isSome || c.era.isSome || c.excludeExplicit

/-- The criteria that a catalog does not decide hold of a track. -/
def accepts (c : Criteria) (t : Track) : Bool :=
  !(c.excludeExplicit && t.explicit) &&
    c.year.all (·.contains t.year?) && c.era.all (·.contains t.year?)

/-- Criteria that leave nothing to check hold of every track. -/
theorem accepts_of_not_needsCheck {c : Criteria} (h : c.needsCheck = false) (t : Track) :
    c.accepts t = true := by
  simp only [needsCheck, Bool.or_eq_false_iff, Option.isSome_eq_false_iff,
    Option.isNone_iff_eq_none] at h
  obtain ⟨⟨noYear, noEra⟩, notExcluded⟩ := h
  simp [accepts, noYear, noEra, notExcluded]

end Criteria

/-- Where interstitials come from. -/
inductive BreakSource where
  /-- All items of a playlist. -/
  | playlist (id : String)
  /-- The items of a genre. -/
  | genre (name : String)
  /-- A search through artist, title and label. -/
  | search (text : String)
  deriving DecidableEq, Inhabited

/-- When interstitials are played. -/
structure Breaks where
  enabled : Bool
  source : Option BreakSource
  /-- A break follows every so many music placements. -/
  every : Nat
  /-- Interstitials offered in one break. -/
  perBreak : Nat
  deriving DecidableEq, Inhabited

/-- The breaks of a plan that asks for none. -/
def Breaks.off : Breaks :=
  ⟨false, none, 4, 1⟩

/-- The share that one value of an attribute may and should have. -/
structure Quota where
  field : Attribute
  value : String
  /-- Percent of the music placements; falling short is only reported. -/
  minShare : Option Float
  /-- Percent of the music placements beyond which no further one is taken. -/
  maxShare : Option Float
  deriving Inhabited

/-- The track counts toward the quota. -/
def Quota.covers (q : Quota) (t : Track) : Bool :=
  match q.field.key? t, q.field.keyFor? q.value with
  | some actual, some wanted => actual == wanted
  | _, _ => false

/-- Another block from which tracks are taken when the own ones do not suffice. -/
structure Fallback where
  block : String
  /-- The most tracks that are taken from it; zero sets no limit. -/
  limit : Nat
  deriving DecidableEq, Inhabited

/-- A block's settings with every default in place.  Times are milliseconds. -/
structure Plan where
  target : Int
  accuracy : Int
  criteria : Criteria
  breaks : Breaks
  separationEnabled : Bool
  /-- The least time between two starts that share the key of an attribute. -/
  separation : List (Attribute × Int)
  quotas : List Quota
  energyEnabled : Bool
  /-- Wanted energy, from 0 to 100, at equal steps through the block. -/
  energyCurve : List Nat
  fallbacks : List Fallback
  /-- The pool may be gone through more than once. -/
  allowRepeats : Bool
  /-- A label that is passed on unread. -/
  mode : Option String
  deriving Inhabited

/-- The least total that counts as filled. -/
def Plan.lowerBound (p : Plan) : Int :=
  Decimal.clampWord (p.target - p.accuracy)

/-- The greatest total that a further placement may lead to. -/
def Plan.upperBound (p : Plan) : Int :=
  Decimal.clampWord (p.target + p.accuracy)

end Rundown
