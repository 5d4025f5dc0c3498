import Rundown.Proofs.FallbackPool
import Rundown.Proofs.FirstFailure

/-!
# When gathering the pools fails

A catalog is asked for tracks and for blocks, and either may fail.  A query for tracks
that fails makes the pools fail, and its error is the one that is reported.  A block
that cannot be found or read is passed over, as is a fallback to the block itself, and
the pools are the same without such a fallback.

The queries are listed here in the order in which they are asked.  Which blocks the
fallbacks lead to depends on the catalog's blocks alone, not on its answers to the
queries before.
-/

namespace Rundown

namespace Catalog

/-- The query for the music of a plan, in its scope. -/
def musicAsked (station : String) (plan : Plan) : Scope × Query :=
  (musicScope station plan, musicQuery plan)

/-- The queries for the music of the blocks that fallbacks lead to. -/
def lentAsked (c : Catalog) (station : String) (year : Int) (block : Option String)
    (fallbacks : List Fallback) : List (Scope × Query) :=
  (c.followed block fallbacks).map fun (_, found) =>
    musicAsked station (Plan.ofDocuments found.rules found.sequence year)

/-- The queries for the pools of a block: its own music, its interstitials if they are
enabled and have a source, and the music of its fallbacks. -/
def asked (c : Catalog) (station : String) (year : Int) (plan : Plan) (block : Option String) :
    List (Scope × Query) :=
  [musicAsked station plan] ++
    (adSource? plan).toList.map (fun source => (⟨station, false⟩, adQuery source)) ++
    c.lentAsked station year block plan.fallbacks

/-- A query is answered. -/
def Answers (c : Catalog) (q : Scope × Query) : Prop :=
  ∃ tracks, c.tracks q.1 q.2 = .ok tracks

/-- A query fails with an error. -/
def Fails (c : Catalog) (q : Scope × Query) (cause : CatalogError) : Prop :=
  c.tracks q.1 q.2 = .error cause

/-- A fallback that is passed over: it names the block itself, or one that does not
exist or cannot be read. -/
def PassedOver (c : Catalog) (block : Option String) (f : Fallback) : Prop :=
  block = some f.block ∨ c.block? f.block = .ok none ∨ ∃ cause, c.block? f.block = .error cause

/-- Fallbacks of which some that are passed over are left out. -/
inductive Thinned (c : Catalog) (block : Option String) : List Fallback → List Fallback → Prop
  | nil : Thinned c block [] []
  | keep {fallbacks kept : List Fallback} (f : Fallback) (hrest : Thinned c block fallbacks kept) :
      Thinned c block (f :: fallbacks) (f :: kept)
  | drop {fallbacks kept : List Fallback} {f : Fallback} (hpassed : c.PassedOver block f)
      (hrest : Thinned c block fallbacks kept) : Thinned c block (f :: fallbacks) kept

variable {c : Catalog} {station : String} {year : Int} {plan : Plan} {block : Option String}

theorem not_answers_iff {q : Scope × Query} : ¬ c.Answers q ↔ ∃ cause, c.Fails q cause := by
  unfold Answers Fails
  cases c.tracks q.1 q.2 <;> simp

theorem decidedBy_query (c : Catalog) (scope : Scope) (query : Query) :
    DecidedBy c.Answers c.Fails [(scope, query)] (c.tracks scope query) := by
  cases hanswer : c.tracks scope query with
  | ok tracks => exact List.forall_mem_singleton.mpr ⟨tracks, hanswer⟩
  | error cause => exact .here (not_answers_iff.mpr ⟨cause, hanswer⟩) hanswer

theorem decidedBy_music (c : Catalog) (station : String) (plan : Plan) :
    DecidedBy c.Answers c.Fails [musicAsked station plan] (c.music station plan) :=
  (decidedBy_query c _ _).bind_ok _

theorem decidedBy_ads (c : Catalog) (station : String) (plan : Plan) :
    DecidedBy c.Answers c.Fails
      ((adSource? plan).toList.map fun source => (⟨station, false⟩, adQuery source))
      (c.ads station plan) := by
  unfold ads
  cases adSource? plan with
  | none => exact .ok []
  | some source => exact (decidedBy_query c _ _).bind_ok _

/-- Each fallback that leads somewhere asks one query, whatever was gathered before. -/
theorem decidedBy_extendAll (c : Catalog) (station : String) (year : Int) (block : Option String)
    (fallbacks : List Fallback) (pool : List Track × List String) :
    DecidedBy c.Answers c.Fails (c.lentAsked station year block fallbacks)
      (c.extendAll station year block fallbacks pool) := by
  induction fallbacks generalizing pool with
  | nil => exact .ok pool
  | cons f rest ih =>
      unfold extendAll lentAsked
      cases hfound : c.referred? block f with
      | none =>
          rw [followed_cons_of_none hfound]
          exact ih pool
      | some found =>
          rw [followed_cons_of_some hfound]
          exact (decidedBy_music c station _).bind fun tracks => ih _

theorem decidedBy_pools (c : Catalog) (station : String) (year : Int) (plan : Plan)
    (block : Option String) :
    DecidedBy c.Answers c.Fails (c.asked station year plan block)
      (c.pools station year plan block) := by
  have hlent : ∀ own, DecidedBy c.Answers c.Fails (c.lentAsked station year block plan.fallbacks)
      (c.fallback station year plan block own) :=
    fun own => (decidedBy_extendAll c station year block plan.fallbacks _).bind_ok _
  unfold asked
  rw [List.append_assoc]
  exact (decidedBy_music c station plan).bind fun own =>
    (decidedBy_ads c station plan).bind fun interstitials => (hlent own).bind_ok _

theorem referred?_of_passedOver {f : Fallback} (h : c.PassedOver block f) :
    c.referred? block f = none := by
  unfold referred?
  split
  · rfl
  · rename_i hother
    rcases h with hself | hnone | ⟨cause, herror⟩
    · exact absurd hself hother
    · rw [hnone]
    · rw [herror]

theorem extendAll_of_thinned {fallbacks kept : List Fallback}
    (h : Thinned c block fallbacks kept) (pool : List Track × List String) :
    c.extendAll station year block kept pool = c.extendAll station year block fallbacks pool := by
  induction h generalizing pool with
  | nil => rfl
  | keep f _ ih =>
      unfold extendAll
      simp only [ih]
  | drop hpassed _ ih =>
      conv_rhs => unfold extendAll
      rw [referred?_of_passedOver hpassed]
      exact ih pool

theorem pools_of_thinned {kept : List Fallback} (h : Thinned c block plan.fallbacks kept) :
    c.pools station year { plan with fallbacks := kept } block =
      c.pools station year plan block := by
  have hothers : ∀ own, c.fallback station year { plan with fallbacks := kept } block own =
      c.fallback station year plan block own := by
    intro own
    unfold fallback
    rw [extendAll_of_thinned h]
  -- The own music and the interstitials are asked for without the fallbacks.
  have hmusic : c.music station { plan with fallbacks := kept } = c.music station plan := rfl
  have hads : c.ads station { plan with fallbacks := kept } = c.ads station plan := rfl
  unfold pools
  simp only [hmusic, hads, hothers]

/-- The pools fail exactly if a query fails, with the error of the first one that does,
and a preview passes that error on as the catalog's.  Leaving out fallbacks that are
passed over makes no difference to the outcome. -/
theorem pools_failsFirst (c : Catalog) (station : String) (year : Int) (plan : Plan)
    (block : Option String) :
    ((∃ cause, c.pools station year plan block = .error cause) ↔
        ∃ q ∈ c.asked station year plan block, ∃ cause, c.Fails q cause) ∧
      (∀ cause, c.pools station year plan block = .error cause ↔
        FailsFirst c.Answers c.Fails (c.asked station year plan block) cause) ∧
      (∀ kept, Thinned c block plan.fallbacks kept →
        c.pools station year { plan with fallbacks := kept } block =
          c.pools station year plan block) ∧
      ∀ (request : PreviewRequest) (cause : CatalogError),
        c.pools request.station year (request.plan year) request.block = .error cause →
          Preview.single c year request = .error (.catalog cause) ∧
            ∀ count, Preview.variants c year request count = .error (.catalog cause) := by
  have hdecided := decidedBy_pools c station year plan block
  refine ⟨?_, ?_, fun kept hthinned => pools_of_thinned hthinned, ?_⟩
  · rw [hdecided.exists_error_iff]
    simp only [not_answers_iff]
  · intro cause
    refine hdecided.error_iff ?_
    intro q cause cause' hcause hcause'
    exact Except.error.inj (hcause.symm.trans hcause')
  · intro request cause hfailed
    unfold PreviewRequest.plan at hfailed
    unfold Preview.single Preview.variants
    simp only [hfailed, implies_true, and_self]

end Catalog

end Rundown
