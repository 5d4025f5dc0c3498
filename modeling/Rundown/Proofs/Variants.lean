import Mathlib.Algebra.Order.Ring.Int
import Mathlib.Data.List.Perm.Basic
import Rundown.Preview
import Rundown.Proofs.Gathering
import Rundown.Proofs.Overflow

/-!
# Variants built side by side

The variants of a preview are begun one after the other, go on side by side, end
in any order and are collected as they end.  `Tasks` is the state of such a
preview and `Step` what may happen next: one more variant is begun, one of those
under way ends, or one that has ended is collected, which waits until all are
begun.  As long as no run breaks off, every schedule takes three steps for each
variant and leads to the same list, ordered by the seeds.

A variant whose run broke off is never collected, and the preview fails.  With
which of several such runs it fails depends on the schedule and is not described
here; nothing is said about time either.
-/

namespace Rundown

/-- The plan of a request in a given year. -/
def PreviewRequest.plan (request : PreviewRequest) (year : Int) : Plan :=
  Plan.ofDocuments request.rules request.sequence year

namespace Preview

section Outcomes

variable (plan : Plan) (pools : Pools) (seed : Nat)

/-- The block of a seed. -/
def built (index : Nat) : Sequence :=
  (Sequence.build .exact plan pools (Random.coins (variantSeed seed index))).1

/-- The run of a variant ends, for all its times are in range. -/
def Completes (index : Nat) : Prop :=
  Time.AllFit (Sequence.times plan pools (Random.coins (variantSeed seed index)))

/-- The variants of a list of indices as they end, each with its index. -/
def indexed (indices : List Nat) : List (Nat × Except Overflow Sequence) :=
  indices.map fun index => (index, variant plan pools seed index)

/-- So many variants in the order of their seeds. -/
def inSeedOrder (count : Nat) : List Sequence :=
  (List.range count).map (built plan pools seed)

end Outcomes

section Collecting

variable {plan : Plan} {pools : Pools} {seed count index : Nat}

theorem variant_eq_ok_iff {s : Sequence} :
    variant plan pools seed index = .ok s ↔
      Completes plan pools seed index ∧ built plan pools seed index = s := by
  unfold variant Completes built
  constructor
  · intro h
    cases hrun : Sequence.tryBuild plan pools (Random.coins (variantSeed seed index)) with
    | error cause =>
        rw [hrun] at h
        cases h
    | ok b =>
        rw [hrun] at h
        obtain ⟨hfit, rfl⟩ := Sequence.tryBuild_eq_ok_iff.mp hrun
        exact ⟨hfit, Except.ok.inj h⟩
  · rintro ⟨hfit, rfl⟩
    rw [Sequence.tryBuild_eq_ok_iff.mpr ⟨hfit, rfl⟩]
    rfl

/-- With durations below half the range every variant of a request ends. -/
theorem completes_of_short {request : PreviewRequest} {year : Int} (hstored : pools.AllStored)
    (hshort : ∀ t ∈ pools.music ++ pools.ads ++ pools.fallback,
      t.duration < 4611686018427387904) : Completes (request.plan year) pools seed index :=
  Sequence.allFit_times_of_short request.rules request.sequence year _ hstored hshort

/-! ## Reading off the collected variants -/

/-- Each index belongs to one variant, so the order in which they were finished
is forgotten. -/
theorem inOrder_eq {finished : List (Nat × Sequence)}
    (hindices : (finished.map (·.1)).Perm (List.range count))
    (hvalues : ∀ p ∈ finished, built plan pools seed p.1 = p.2) :
    inOrder finished = inSeedOrder plan pools seed count := by
  have hperm := List.mergeSort_perm finished fun a b => a.1 ≤ b.1
  have hsorted : ((finished.mergeSort fun a b => a.1 ≤ b.1).map (·.1)).Pairwise (· ≤ ·) := by
    have hdecided : (finished.mergeSort fun a b => a.1 ≤ b.1).Pairwise
        fun a b => decide (a.1 ≤ b.1) = true :=
      List.pairwise_mergeSort (fun _ _ _ hab hbc => by simp at *; omega)
        (fun _ _ => by simp; omega) finished
    exact List.pairwise_map.mpr (hdecided.imp of_decide_eq_true)
  -- Two sorted lists with the same entries are the same.
  have hrange : (finished.mergeSort fun a b => a.1 ≤ b.1).map (·.1) = List.range count :=
    List.Perm.eq_of_pairwise (fun _ _ _ _ hab hba => Nat.le_antisymm hab hba) hsorted
      List.pairwise_le_range ((hperm.map _).trans hindices)
  unfold inOrder inSeedOrder
  rw [← hrange, List.map_map]
  apply List.map_congr_left
  intro p hp
  exact (hvalues p (hperm.subset hp)).symm

theorem mapM_variant_eq_ok_iff {order : List Nat} {finished : List (Nat × Sequence)} :
    (order.mapM fun index => do return (index, ← variant plan pools seed index)) = .ok finished ↔
      (∀ index ∈ order, Completes plan pools seed index) ∧
        order.map (fun index => (index, built plan pools seed index)) = finished := by
  induction order generalizing finished with
  | nil =>
      constructor
      · intro h
        exact ⟨fun _ hi => absurd hi List.not_mem_nil, Except.ok.inj h⟩
      · rintro ⟨_, rfl⟩
        rfl
  | cons index order ih =>
      rw [List.mapM_cons, List.forall_mem_cons, List.map_cons]
      constructor
      · intro h
        obtain ⟨first, hfirst, hrest⟩ := bind_eq_ok.mp h
        obtain ⟨s, hs, hpair⟩ := bind_eq_ok.mp hfirst
        obtain ⟨later, hlater, hall⟩ := bind_eq_ok.mp hrest
        obtain ⟨hcompletes, rfl⟩ := variant_eq_ok_iff.mp hs
        obtain ⟨hothers, rfl⟩ := ih.mp hlater
        obtain rfl := Except.ok.inj hpair
        exact ⟨⟨hcompletes, hothers⟩, Except.ok.inj hall⟩
      · rintro ⟨⟨hcompletes, hothers⟩, rfl⟩
        have hone := variant_eq_ok_iff.mpr ⟨hcompletes, rfl⟩
        exact bind_eq_ok.mpr ⟨_, bind_eq_ok.mpr ⟨_, hone, rfl⟩,
          bind_eq_ok.mpr ⟨_, ih.mpr ⟨hothers, rfl⟩, rfl⟩⟩

theorem collect_range_eq_ok_iff {results : List Sequence} :
    collect plan pools seed (List.range count) = .ok results ↔
      (∀ index < count, Completes plan pools seed index) ∧
        inSeedOrder plan pools seed count = results := by
  have hcollected : inOrder ((List.range count).map fun index =>
      (index, built plan pools seed index)) = inSeedOrder plan pools seed count := by
    apply inOrder_eq
    · rw [List.map_map]
      exact List.Perm.of_eq (List.map_id _)
    · intro p hp
      obtain ⟨index, _, rfl⟩ := List.mem_map.mp hp
      rfl
  unfold collect
  rw [bind_eq_ok]
  simp only [mapM_variant_eq_ok_iff, List.mem_range]
  constructor
  · rintro ⟨_, ⟨hruns, rfl⟩, hordered⟩
    exact ⟨hruns, hcollected.symm.trans (Except.ok.inj hordered)⟩
  · rintro ⟨hruns, rfl⟩
    exact ⟨_, ⟨hruns, rfl⟩, congrArg Except.ok hcollected⟩

end Collecting

/-! ## Schedules -/

/-- How far the variants of a preview have got. -/
structure Tasks where
  /-- How many variants have been begun. -/
  begun : Nat
  /-- The indices of those that go on. -/
  running : List Nat
  /-- Those that have ended and are not collected yet, with their outcomes. -/
  ended : List (Nat × Except Overflow Sequence)
  /-- Those that are collected, in the order in which that happened. -/
  collected : List (Nat × Sequence)

namespace Tasks

/-- Nothing has been begun. -/
def start : Tasks :=
  ⟨0, [], [], []⟩

section Schedules

variable (plan : Plan) (pools : Pools) (seed count : Nat)

/-- What may happen next. -/
inductive Step : Tasks → Tasks → Prop
  /-- The next variant is begun. -/
  | begin (begun : Nat) (running : List Nat) (ended : List (Nat × Except Overflow Sequence))
      (collected : List (Nat × Sequence)) (more : begun < count) :
      Step ⟨begun, running, ended, collected⟩ ⟨begun + 1, running ++ [begun], ended, collected⟩
  /-- Any of the variants under way ends. -/
  | finish (begun : Nat) (before after : List Nat) (index : Nat)
      (ended : List (Nat × Except Overflow Sequence)) (collected : List (Nat × Sequence)) :
      Step ⟨begun, before ++ index :: after, ended, collected⟩
        ⟨begun, before ++ after, ended ++ [(index, variant plan pools seed index)], collected⟩
  /-- Any of those that have ended with a block is collected, once all are begun. -/
  | collect (running : List Nat) (before after : List (Nat × Except Overflow Sequence))
      (index : Nat) (s : Sequence) (collected : List (Nat × Sequence)) :
      Step ⟨count, running, before ++ (index, .ok s) :: after, collected⟩
        ⟨count, running, before ++ after, collected ++ [(index, s)]⟩

/-- The states that so many steps lead to. -/
inductive After : Nat → Tasks → Prop
  | start : After 0 start
  | step {steps : Nat} {tasks next : Tasks} (reached : After steps tasks)
      (happens : Step plan pools seed count tasks next) : After (steps + 1) next

/-- A collected variant has ended with its block. -/
def withOutcome (p : Nat × Sequence) : Nat × Except Overflow Sequence :=
  (p.1, .ok p.2)

/-- What every schedule keeps: each variant that was begun is in one place, with
its own outcome once it has ended, and what is left to do is known. -/
structure Coherent (steps : Nat) (tasks : Tasks) : Prop where
  begun_le : tasks.begun ≤ count
  complete : (tasks.collected.map withOutcome ++ tasks.ended ++
    indexed plan pools seed tasks.running).Perm (indexed plan pools seed (List.range tasks.begun))
  left : steps + 3 * (count - tasks.begun) + 2 * tasks.running.length + tasks.ended.length =
    3 * count

end Schedules

variable {plan : Plan} {pools : Pools} {seed count steps : Nat} {tasks next : Tasks}

theorem Coherent.start : Coherent plan pools seed count 0 start :=
  ⟨Nat.zero_le _, List.Perm.refl _, by simp [Tasks.start]⟩

theorem Coherent.step (h : Coherent plan pools seed count steps tasks)
    (happens : Step plan pools seed count tasks next) :
    Coherent plan pools seed count (steps + 1) next := by
  obtain ⟨hbegun, hcomplete, hleft⟩ := h
  cases happens with
  | begin begun running ended collected more =>
      refine ⟨more, ?_, ?_⟩
      · simp only [indexed, List.range_succ, List.map_append] at hcomplete ⊢
        rw [← List.append_assoc]
        exact hcomplete.append_right _
      · simp only [List.length_append, List.length_singleton] at hleft ⊢
        omega
  | finish begun before after index ended collected =>
      refine ⟨hbegun, ?_, ?_⟩
      · -- The value moves from those under way to those that have ended.
        refine List.Perm.trans ?_ hcomplete
        simp only [indexed, List.map_append, List.map_cons, List.append_assoc, List.cons_append,
          List.nil_append]
        exact ((List.perm_middle.symm).append_left ended).append_left _
      · simp only [List.length_append, List.length_cons, List.length_nil] at hleft ⊢
        omega
  | collect running before after index s collected =>
      refine ⟨hbegun, ?_, ?_⟩
      · refine List.Perm.trans ?_ hcomplete
        simp only [List.map_append, List.map_cons, List.map_nil, withOutcome, List.append_assoc,
          List.cons_append, List.nil_append]
        exact (List.perm_middle.symm).append_left _
      · simp only [List.length_append, List.length_cons] at hleft ⊢
        omega

/-- As long as no run breaks off, a schedule goes on until it has taken three steps for
each variant. -/
theorem Coherent.exists_step (h : Coherent plan pools seed count steps tasks)
    (hruns : ∀ index < count, Completes plan pools seed index) (hmore : steps < 3 * count) :
    ∃ next, Step plan pools seed count tasks next := by
  obtain ⟨begun, running, ended, collected⟩ := tasks
  have hbegun := h.begun_le
  have hleft := h.left
  have hcomplete := h.complete
  simp only at hbegun hleft hcomplete
  -- One of the three parts of what is left to do is not zero.
  by_cases hall : begun < count
  · exact ⟨_, .begin begun running ended collected hall⟩
  · obtain rfl : begun = count := by omega
    cases running with
    | cons index rest => exact ⟨_, .finish begun [] rest index ended collected⟩
    | nil =>
        cases ended with
        | cons one rest =>
            -- What has ended is the outcome of an index, and this run did not break off.
            have hone : one ∈ indexed plan pools seed (List.range begun) :=
              hcomplete.subset (by simp)
            obtain ⟨index, hindex, rfl⟩ := List.mem_map.mp hone
            have hends := variant_eq_ok_iff.mpr ⟨hruns index (List.mem_range.mp hindex), rfl⟩
            rw [hends]
            exact ⟨_, .collect [] [] rest index _ collected⟩
        | nil =>
            simp only [List.length_nil] at hleft
            omega

/-- Then all variants are collected. -/
theorem Coherent.collected_perm (h : Coherent plan pools seed count (3 * count) tasks) :
    (tasks.collected.map withOutcome).Perm (indexed plan pools seed (List.range count)) := by
  obtain ⟨begun, running, ended, collected⟩ := tasks
  have hbegun := h.begun_le
  have hleft := h.left
  have hcomplete := h.complete
  simp only at hbegun hleft hcomplete
  obtain rfl : begun = count := by omega
  obtain rfl : running = [] := List.eq_nil_of_length_eq_zero (by omega)
  obtain rfl : ended = [] := List.eq_nil_of_length_eq_zero (by omega)
  rw [List.append_nil, indexed, List.map_nil, List.append_nil] at hcomplete
  exact hcomplete

theorem After.coherent (h : After plan pools seed count steps tasks) :
    Coherent plan pools seed count steps tasks := by
  induction h with
  | start => exact .start
  | step _ happens ih => exact ih.step happens

/-- Whatever the schedule, the steps are three for each variant and the variants
that are collected in the end are those of the seeds. -/
theorem After.inOrder_eq (h : After plan pools seed count (3 * count) tasks) :
    inOrder tasks.collected = inSeedOrder plan pools seed count := by
  have hperm := h.coherent.collected_perm
  apply Preview.inOrder_eq
  · have hindices := hperm.map (·.1)
    rw [indexed, List.map_map, List.map_map] at hindices
    exact hindices.trans (List.Perm.of_eq (List.map_id _))
  · intro p hp
    have hmem := hperm.subset (List.mem_map_of_mem hp)
    obtain ⟨index, _, heq⟩ := List.mem_map.mp hmem
    obtain ⟨rfl, houtcome⟩ := Prod.mk.inj heq
    exact (variant_eq_ok_iff.mp houtcome).2

theorem After.le (h : After plan pools seed count steps tasks) : steps ≤ 3 * count := by
  have hleft := h.coherent.left
  omega

end Tasks

/-! ## The variants of a request -/

section Requests

variable {c : Catalog} {year : Int} {request : PreviewRequest} {pools : Pools}

theorem inSeedOrder_prefix (plan : Plan) (pools : Pools) (seed : Nat) {count more : Nat}
    (h : count ≤ more) :
    inSeedOrder plan pools seed count <+: inSeedOrder plan pools seed more := by
  have hrange : List.range count <+: List.range more := by
    have htake : (List.range more).take count = List.range count := by
      rw [List.take_range, Nat.min_eq_left h]
    exact htake ▸ List.take_prefix count _
  exact hrange.map _

/-- A variant is the first one of its own seed. -/
theorem variant_eq_first (plan : Plan) (pools : Pools) (seed index : Nat) :
    variant plan pools (variantSeed seed index) 0 = variant plan pools seed index := by
  have hseed : variantSeed (variantSeed seed index) 0 = variantSeed seed index := by
    unfold variantSeed
    rw [Nat.add_zero, Nat.mod_mod]
  unfold variant
  rw [hseed]

theorem mapError_eq_ok_iff {ε ε' α : Type} {x : Except ε α} {f : ε → ε'} {a : α} :
    x.mapError f = .ok a ↔ x = .ok a := by
  cases x <;> simp [Except.mapError]

section Fetched

variable (hpools : c.pools request.station year (request.plan year) request.block = .ok pools)

include hpools

theorem variants_eq_ok_iff {count : Nat} {results : List Sequence} :
    variants c year request count = .ok results ↔
      (∀ index < count, Completes (request.plan year) pools request.seed index) ∧
        inSeedOrder (request.plan year) pools request.seed count = results := by
  unfold PreviewRequest.plan at hpools ⊢
  simp only [variants, hpools]
  exact mapError_eq_ok_iff.trans collect_range_eq_ok_iff

theorem single_eq_ok_iff {seed : Nat} {s : Sequence} :
    single c year { request with seed := seed } = .ok s ↔
      variant (request.plan year) pools seed 0 = .ok s := by
  unfold PreviewRequest.plan at hpools ⊢
  simp only [single, hpools]
  exact mapError_eq_ok_iff

end Fetched

/-- The variants of a request as functions of their seeds alone. -/
structure DependOnSeeds (c : Catalog) (year : Int) (request : PreviewRequest) (pools : Pools)
    (count : Nat) (results : List Sequence) : Prop where
  length : results.length = count
  /-- Each variant is built from the pools with the coins of its own seed. -/
  built : ∀ i (h : i < results.length), results[i] =
    (Sequence.build .exact (request.plan year) pools
      (Random.coins ((request.seed + i) % 2 ^ 64))).1
  /-- No schedule gets stuck or goes on for ever, and all of them end alike. -/
  scheduled : ∀ steps tasks,
    Tasks.After (request.plan year) pools request.seed count steps tasks →
      steps ≤ 3 * count ∧
        (steps < 3 * count →
          ∃ next, Tasks.Step (request.plan year) pools request.seed count tasks next) ∧
        (steps = 3 * count → inOrder tasks.collected = results)
  returned : variants c year request count = .ok results
  /-- Each variant is what the request previews with the seed of that variant. -/
  single : ∀ i (h : i < results.length),
    single c year { request with seed := (request.seed + i) % 2 ^ 64 } = .ok results[i]
  /-- Asking for more variants, none of which breaks off, does not change the first ones. -/
  extended : ∀ more, count ≤ more →
    (∀ index < more, Completes (request.plan year) pools request.seed index) →
      ∃ longer, variants c year request more = .ok longer ∧ results <+: longer

/-- Once the pools are fetched, the variants depend on their seeds alone, as long as no
run of one of them breaks off. -/
theorem variants_depend_on_seeds
    (hpools : c.pools request.station year (request.plan year) request.block = .ok pools)
    (count : Nat)
    (hruns : ∀ index < count, Completes (request.plan year) pools request.seed index) :
    ∃ results, DependOnSeeds c year request pools count results := by
  refine ⟨inSeedOrder (request.plan year) pools request.seed count, ?_, ?_, ?_, ?_, ?_, ?_⟩
  · rw [inSeedOrder, List.length_map, List.length_range]
  · intro i h
    simp only [inSeedOrder, List.getElem_map, List.getElem_range]
    rfl
  · intro steps tasks hafter
    refine ⟨hafter.le, hafter.coherent.exists_step hruns, ?_⟩
    rintro rfl
    exact hafter.inOrder_eq
  · exact (variants_eq_ok_iff hpools).mpr ⟨hruns, rfl⟩
  · intro i h
    have hi : i < count := by simpa [inSeedOrder] using h
    have hone := variant_eq_ok_iff.mpr ⟨hruns i hi, rfl⟩
    apply (single_eq_ok_iff hpools).mpr
    simp only [inSeedOrder, List.getElem_map, List.getElem_range]
    exact (variant_eq_first (request.plan year) pools request.seed i).trans hone
  · intro more hmore hall
    exact ⟨_, (variants_eq_ok_iff hpools).mpr ⟨hall, rfl⟩, inSeedOrder_prefix _ _ _ hmore⟩

end Requests

end Preview

namespace Sample

/-- A catalog that knows the songs of the sample and no blocks. -/
def catalog : Catalog :=
  ⟨fun _ _ => .ok pools.music, fun _ => .ok none⟩

/-- The last seed, so that the second variant begins again with the first one. -/
def request : PreviewRequest :=
  ⟨none, "station", rules, .empty, 2 ^ 64 - 1⟩

end Sample

namespace Preview

/-- Three variants across the end of the seeds. -/
theorem variants_depend_on_seeds_sample :
    Sample.catalog.pools Sample.request.station 2026 (Sample.request.plan 2026)
        Sample.request.block = .ok Sample.pools ∧
      (∀ index < 3, Completes (Sample.request.plan 2026) Sample.pools Sample.request.seed index) ∧
      ∃ results, DependOnSeeds Sample.catalog 2026 Sample.request Sample.pools 3 results := by
  have hpools : Sample.catalog.pools Sample.request.station 2026 (Sample.request.plan 2026)
      Sample.request.block = .ok Sample.pools := by rfl
  have hruns : ∀ index < 3,
      Completes (Sample.request.plan 2026) Sample.pools Sample.request.seed index :=
    fun _ _ => completes_of_short (by decide) (by decide)
  exact ⟨hpools, hruns, variants_depend_on_seeds hpools 3 hruns⟩

end Preview

end Rundown
