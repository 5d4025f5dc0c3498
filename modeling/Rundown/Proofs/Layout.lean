import Rundown.Proofs.Growth

/-!
# Offsets and totals of a growing block

The running total of a block is the total of its placements, and the offsets
noted while placing are the ones that laying the placements out gives.  Both
hold under every reckoning.  With times as integers, laying out from a later start
delays every placement and the total alike; hence taking one placement away moves
exactly the later ones, by its duration.
-/

namespace Rundown

namespace Placement

/-- A placement moved to a later time. -/
def delay (shift : Int) (p : Placement) : Placement :=
  { p with startsAt := p.startsAt + shift, endsAt := p.endsAt + shift }

@[simp]
theorem startsAt_delay (shift : Int) (p : Placement) :
    (p.delay shift).startsAt = p.startsAt + shift := rfl

@[simp]
theorem music_append (xs ys : List Placement) : music (xs ++ ys) = music xs ++ music ys :=
  List.filter_append ..

theorem music_map_delay (shift : Int) (placements : List Placement) :
    music (placements.map (delay shift)) = (music placements).map (delay shift) := by
  unfold music
  rw [List.filter_map]
  rfl

theorem mem_music {p : Placement} {placements : List Placement} :
    p ∈ music placements ↔ p ∈ placements ∧ p.isMusic = true :=
  List.mem_filter

theorem layOutFrom_append (r : Reckoning) (start : Int) (xs ys : List Placement) :
    layOutFrom r start (xs ++ ys) =
      layOutFrom r start xs ++ layOutFrom r (totalFrom r start xs) ys := by
  induction xs generalizing start with
  | nil => rfl
  | cons p rest ih => simp [layOutFrom, totalFrom, ih]

theorem total_concat (r : Reckoning) (placements : List Placement) (p : Placement) :
    total r (placements ++ [p]) = r.hold (total r placements + p.track.duration) := by
  unfold total
  rw [totalFrom_append]
  rfl

theorem layOut_concat (r : Reckoning) (placements : List Placement) (p : Placement) :
    layOut r (placements ++ [p]) = layOut r placements ++
      [{ p with
          startsAt := total r placements
          endsAt := r.hold (total r placements + p.track.duration) }] := by
  unfold layOut
  rw [layOutFrom_append]
  rfl

/-- Laying out moves placements and changes nothing else of them. -/
theorem map_layOutFrom {β : Type} (g : Placement → β)
    (hg : ∀ p start finish, g { p with startsAt := start, endsAt := finish } = g p)
    (r : Reckoning) (start : Int) (placements : List Placement) :
    (layOutFrom r start placements).map g = placements.map g := by
  induction placements generalizing start with
  | nil => rfl
  | cons p rest ih => simp only [layOutFrom, List.map_cons, hg, ih]

/-! ## Times as integers -/

/-- A total that is counted from a later start is later alike. -/
theorem totalFrom_exact_add (start shift : Int) (placements : List Placement) :
    totalFrom .exact (start + shift) placements = totalFrom .exact start placements + shift := by
  induction placements generalizing start with
  | nil => rfl
  | cons p rest ih =>
      have hnext : start + shift + p.track.duration = start + p.track.duration + shift := by
        omega
      simp only [totalFrom, Reckoning.hold_exact, hnext, ih]

/-- Placements that take time end no earlier than they start. -/
theorem le_totalFrom_exact {placements : List Placement} (start : Int)
    (htimed : ∀ p ∈ placements, 0 < p.track.duration) :
    start ≤ totalFrom .exact start placements := by
  induction placements generalizing start with
  | nil => exact Int.le_refl start
  | cons p rest ih =>
      obtain ⟨hfirst, hrest⟩ := List.forall_mem_cons.mp htimed
      have hlater : start + p.track.duration ≤ totalFrom .exact (start + p.track.duration) rest :=
        ih _ hrest
      change start ≤ totalFrom .exact (start + p.track.duration) rest
      omega

/-- One placement less, and the total is less by its duration. -/
theorem total_exact_remove (earlier : List Placement) (removed : Placement)
    (later : List Placement) :
    total .exact (earlier ++ later) =
      total .exact (earlier ++ removed :: later) - removed.track.duration := by
  unfold total
  rw [totalFrom_append, totalFrom_append]
  change totalFrom .exact (totalFrom .exact 0 earlier) later =
    totalFrom .exact (totalFrom .exact 0 earlier + removed.track.duration) later -
      removed.track.duration
  rw [totalFrom_exact_add]
  omega

/-- Laying out from a later start delays every placement alike. -/
theorem layOutFrom_exact_add (start shift : Int) (placements : List Placement) :
    layOutFrom .exact (start + shift) placements =
      (layOutFrom .exact start placements).map (delay shift) := by
  induction placements generalizing start with
  | nil => rfl
  | cons p rest ih =>
      have hnext : start + shift + p.track.duration = start + p.track.duration + shift := by
        omega
      simp only [layOutFrom, Reckoning.hold_exact, List.map_cons, hnext, ih, delay]

/-- Removing a placement from a block that is laid out leaves the earlier
placements in place and advances the later ones by its duration. -/
theorem layOut_exact_remove {earlier later : List Placement} {removed : Placement}
    (h : layOut .exact (earlier ++ removed :: later) = earlier ++ removed :: later) :
    layOut .exact (earlier ++ later) =
      earlier ++ later.map (delay (-removed.track.duration)) := by
  unfold layOut at *
  rw [layOutFrom_append] at h
  -- What follows the removed placement is laid out from its end on.
  obtain ⟨hearlier, hrest⟩ := List.append_inj h (length_layOutFrom ..)
  have hlater : layOutFrom .exact (totalFrom .exact 0 earlier + removed.track.duration) later
      = later := (List.cons.inj hrest).2
  rw [layOutFrom_append, hearlier]
  congr 1
  calc layOutFrom .exact (totalFrom .exact 0 earlier) later
      = layOutFrom .exact (totalFrom .exact 0 earlier + removed.track.duration
          + -removed.track.duration) later := by rw [Int.add_neg_cancel_right]
    _ = later.map (delay (-removed.track.duration)) := by
          rw [layOutFrom_exact_add, hlater]

end Placement

/-! ## States of a growing block -/

/-- The running total and the noted offsets are those of the placements. -/
structure State.Coherent (r : Reckoning) (s : State) : Prop where
  total_eq : s.total = Placement.total r s.placements
  laidOut : Placement.layOut r s.placements = s.placements

/-- Placements that take time have no negative total. -/
theorem State.Coherent.total_nonneg {s : State} (h : s.Coherent .exact)
    (htimed : ∀ p ∈ s.placements, 0 < p.track.duration) : 0 ≤ s.total := by
  rw [h.total_eq]
  exact Placement.le_totalFrom_exact 0 htimed

/-- Every track of the pools takes time. -/
def Pools.AllTimed (pools : Pools) : Prop :=
  ∀ t ∈ pools.music ++ pools.ads ++ pools.fallback, 0 < t.duration

instance (pools : Pools) : Decidable pools.AllTimed :=
  inferInstanceAs (Decidable (∀ t ∈ _, _))

/-- The pool of either phase is among the tracks of the pools. -/
theorem Pools.mem_of_mem_source {pools : Pools} {fromFallback : Bool} {t : Track}
    (h : t ∈ pools.source fromFallback) : t ∈ pools.music ++ pools.ads ++ pools.fallback := by
  cases fromFallback with
  | false => exact List.mem_append_left _ (List.mem_append_left _ h)
  | true => exact List.mem_append_right _ h

namespace Filling

variable {f : Filling} {pools : Pools} {s : State}

/-- The summary of a block stays in step with its placements. -/
theorem Grown.coherent (h : f.Grown pools s) : s.Coherent f.reckoning := by
  induction h with
  | start => exact ⟨rfl, rfl⟩
  | step fromFallback grown next ih =>
      obtain ⟨p, hp⟩ := next.appends
      constructor
      · rw [hp.placements, hp.total, hp.ends, ih.total_eq, Placement.total_concat]
      · rw [hp.placements, Placement.layOut_concat, ih.laidOut, ← ih.total_eq, ← hp.ends,
          ← hp.starts]

/-- What holds of every track of the pools holds of all that a block places. -/
theorem Grown.forall_track {P : Track → Prop} (h : f.Grown pools s) (hads : f.ads = pools.ads)
    (hpools : ∀ t ∈ pools.music ++ pools.ads ++ pools.fallback, P t) :
    ∀ p ∈ s.placements, P p.track := by
  induction h with
  | start => simp [State.start]
  | step fromFallback grown next ih =>
      obtain ⟨p, hp⟩ := next.appends
      rw [hp.placements]
      intro q hq
      rcases List.mem_append.mp hq with hold | hnew
      · exact ih q hold
      · rw [List.mem_singleton.mp hnew]
        rcases hp.origin with ⟨_, htake⟩ | ⟨_, had, _⟩
        · exact hpools _ (Pools.mem_of_mem_source htake.known)
        · rw [hads] at had
          exact hpools _ (List.mem_append_left _ (List.mem_append_right _ had))

/-- Every placement of a block takes time when every track does. -/
theorem Grown.allTimed (h : f.Grown pools s) (hads : f.ads = pools.ads)
    (hpools : pools.AllTimed) : ∀ p ∈ s.placements, 0 < p.track.duration :=
  h.forall_track hads hpools

end Filling

end Rundown
