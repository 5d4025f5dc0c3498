import Rundown.Document
import Rundown.Duration
import Rundown.Plan.Basic

/-!
# From documents to a plan

Every field of a plan has a default that takes the place of what is absent or
cannot be understood.  A feature with a switch of its own is read only when the
switch is on: what a dashboard keeps of a feature that was switched off has no
effect.
-/

namespace Rundown

/-- The years of an era, by its label.  Years are numbers of 32 bits. -/
def eraRange? (label : String) (year : Int) : Option YearRange :=
  match Text.lowerAscii (Text.trim label) with
  | "80s" => some ⟨some 1980, some 1989⟩
  | "90s" => some ⟨some 1990, some 1999⟩
  | "2000s" => some ⟨some 2000, some 2009⟩
  | "2010s" => some ⟨some 2010, some 2019⟩
  | "2020s" => some ⟨some 2020, some 2029⟩
  | "current" => some ⟨some ((year - 2).bmod 4294967296), some year⟩
  | "classic" => some ⟨none, some 1979⟩
  | _ => none

namespace Plan

/-- Minutes of a block whose documents ask for no length. -/
def defaultMinutes : Int := 60

/-- The longest block, one day in minutes. -/
def greatestMinutes : Int := 1440

/-- Seconds by which a total may miss the target when nothing else is said. -/
def defaultAccuracy : Int := 2

/-- The least and the greatest accuracy in seconds. -/
def accuracyRange : Int × Int := (1, 60)

/-- The length of a block in minutes. -/
def targetMinutes (rules : Document) : Int :=
  min (((rules.whole? "targetMinutes").filter (0 < ·)).getD defaultMinutes) greatestMinutes

/-- The accuracy of a block in seconds. -/
def accuracySeconds (rules : Document) : Int :=
  max accuracyRange.1
    (min accuracyRange.2 ((rules.whole? "durationAccuracy").getD defaultAccuracy))

/-- Bounds of which at least one binds. -/
def boundsAt? (rules : Document) (key : String) : Option (Option Float × Option Float) :=
  ((rules.firstOf? [key]).map Json.bounds).filter fun (low, high) => low.isSome || high.isSome

/-- What the tracks of a block must be like. -/
def criteriaOf (rules : Document) (year : Int) : Criteria where
  textSearch := rules.label? "text_search"
  genre := rules.label? "genre"
  artist := rules.label? "artist"
  mood := rules.label? "mood"
  language := rules.label? "language"
  tempo := (boundsAt? rules "bpmRange").map fun (low, high) => ⟨low, high⟩
  year := (boundsAt? rules "yearRange").map fun (low, high) =>
    ⟨low.map Decimal.truncateToHalfWord, high.map Decimal.truncateToHalfWord⟩
  era := (rules.label? "era").bind fun label => eraRange? label year
  excludeExplicit := rules.truth "excludeExplicit"
  sourcePlaylists :=
    ((rules.firstOf? ["sourcePlaylists", "source_playlists"]).map Json.labels).getD []
  includePublicArchive :=
    ((rules.firstOf? ["includePublicArchive", "include_archive"]).map Json.truth).getD false

/-- The gap of an attribute, given in minutes, when it is positive. -/
def gapAt? (separation : Json.Members) (a : Attribute) : Option Int :=
  (((Json.lookup? separation a.name).bind Json.number?).filter (0 < ·)).map fun minutes =>
    Decimal.truncateToWord (minutes * Decimal.ofInt Duration.minute)

/-- The gaps between tracks that share an attribute. -/
def separationOf (rules : Document) : List (Attribute × Int) :=
  if rules.truth "separationEnabled" then
    match rules.members? "separation" with
    | some separation => Attribute.separable.filterMap fun a => (gapAt? separation a).map (a, ·)
    | none => []
  else []

/-- A share in percent, under the first key that holds a number, when positive. -/
def shareAt? (quota : Json.Members) (keys : List String) : Option Float :=
  (keys.findSome? fun key => (Json.lookup? quota key).bind Json.number?).filter (0 < ·)

/-- The quota that an entry describes. -/
def quotaOf? (entry : Json) : Option Quota := do
  let quota ← entry.members?
  let field ← Attribute.ofName? (← Json.labelAt? quota "field")
  let value ← Json.labelAt? quota "value"
  some ⟨field, value, shareAt? quota ["minPct", "min_pct"], shareAt? quota ["maxPct", "max_pct"]⟩

/-- The quotas of a block. -/
def quotasOf (rules : Document) : List Quota :=
  if rules.truth "quotasEnabled" then (rules.items "quotas").filterMap quotaOf? else []

/-- The first label under one of the keys. -/
def labelUnder? (members : Json.Members) (keys : List String) : Option String :=
  keys.findSome? (Json.labelAt? members)

/-- The fallback that an entry describes. -/
def fallbackOf? (entry : Json) : Option Fallback := do
  let fallback ← entry.members?
  let block ← labelUnder? fallback ["blockID", "blockId", "smart_block_id"]
  some ⟨block, ((Json.wholeAt? fallback "limit").getD 0).toNat⟩

/-- The fallbacks of a block. -/
def fallbacksOf (rules : Document) : List Fallback :=
  if rules.truth "fallbacksEnabled" then (rules.items "fallbacks").filterMap fallbackOf? else []

/-- Where the interstitials of a block come from.  Without a type, the first
source that is filled in counts; an unknown type names no source. -/
def breakSourceOf? (doc : Json.Members) : Option BreakSource :=
  let playlist :=
    (labelUnder? doc ["playlistID", "playlistId", "playlist_id"]).map BreakSource.playlist
  let genre := (Json.labelAt? doc "genre").map BreakSource.genre
  let search := (Json.labelAt? doc "query").map BreakSource.search
  match (labelUnder? doc ["sourceType", "source_type"]).map Text.lowerAscii with
  | some "playlist" => playlist
  | some "genre" => genre
  | some "query" => search
  | some "search" => search
  | some "text" => search
  | some _ => none
  | none => playlist <|> genre <|> search

/-- A count of at least one under a key, or the default when it is no number. -/
def countAt (doc : Json.Members) (key : String) (default : Nat) : Nat :=
  ((Json.wholeAt? doc key).map fun n => (max 1 n).toNat).getD default

/-- The breaks of a block. -/
def breaksOf (rules : Document) : Breaks :=
  match rules.members? "interstitials" with
  | none => Breaks.off
  | some doc =>
      if Json.truthAt doc "enabled" then
        match breakSourceOf? doc with
        | none => Breaks.off
        | some source =>
            ⟨true, some source, countAt doc "every" Breaks.off.every,
              countAt doc "perBreak" Breaks.off.perBreak⟩
      else Breaks.off

/-- The nearest whole energy level from 0 to 100. -/
def energyLevel (x : Float) : Nat :=
  match Decimal.Binary.of? x with
  | some b => if b.negative then 0 else min 100 b.roundHalfUp
  | none => if 0 < x then 100 else 0

/-- The energy curve of a block, empty when none is in force. -/
def energyCurveOf (sequence : Document) : List Nat :=
  if sequence.truth "energyEnabled" then
    ((sequence.items "energyCurve").filterMap Json.number?).map energyLevel
  else []

/-- The plan that the documents of a block describe, in a given year. -/
def ofDocuments (rules sequence : Document) (year : Int) : Plan where
  target := Duration.ofMinutes (targetMinutes rules)
  accuracy := Duration.ofSeconds (accuracySeconds rules)
  criteria := criteriaOf rules year
  breaks := breaksOf rules
  separationEnabled := rules.truth "separationEnabled"
  separation := separationOf rules
  quotas := quotasOf rules
  energyEnabled := !(energyCurveOf sequence).isEmpty
  energyCurve := energyCurveOf sequence
  fallbacks := fallbacksOf rules
  allowRepeats := rules.truth "allowRepeats"
  mode := sequence.label? "mode"

end Plan

end Rundown
