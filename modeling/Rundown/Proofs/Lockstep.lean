import Rundown.Proofs.ScoreOrder
import Rundown.Proofs.Turns

/-!
# Two runs side by side

Two blocks may be filled in step although they differ in the coins or in whether
the pool may be repeated.  A turn asks for neither: it places the chosen track
and holds the break that may follow, and only the number of coins used goes
through it unread.  What the runs choose in their turns is not compared here.
-/

namespace Rundown

/-- The same block under construction, however many coins were used for it. -/
structure Run.Alike (a b : Run) : Prop where
  state : a.state = b.state
  turn : a.turn = b.turn

theorem Run.Alike.eq {a b : Run} (h : a.Alike b) (hcoins : a.coinsUsed = b.coinsUsed) : a = b := by
  cases a
  cases b
  exact Run.mk.injEq .. ▸ ⟨h.state, h.turn, hcoins⟩

namespace State

theorem le_used_choose (r : Reckoning) (s : State) (plan : Plan) (window : Nat) (coins : Coins)
    (used : Nat) (candidates : List Candidate) :
    used ≤ (s.choose r plan window coins used candidates).2 :=
  Scored.le_used_best ..

end State

/-- The same plan with another rule for repeats. -/
def Plan.withRepeats (plan : Plan) (allowed : Bool) : Plan :=
  { plan with allowRepeats := allowed }

namespace Filling

variable (f : Filling) (fromFallback : Bool)

/-- The same filling with another rule for repeats and other coins. -/
def under (allowed : Bool) (coins : Coins) : Filling :=
  ⟨f.reckoning, f.plan.withRepeats allowed, f.ads, coins⟩

section Turns

variable {f fromFallback} {allowed : Bool} {coins : Coins} {a b : Run}

theorem offer_alike (count : Nat) (h : a.Alike b) :
    ((f.under allowed coins).offer fromFallback count a).Alike
      (f.offer fromFallback count b) := by
  induction count generalizing a b with
  | zero => exact h
  | succ count ih =>
      have hoffered : (f.under allowed coins).ads[a.turn %
          (f.under allowed coins).ads.length]? = f.ads[b.turn % f.ads.length]? := by
        rw [h.turn]
        rfl
      unfold offer
      rw [hoffered]
      cases f.ads[b.turn % f.ads.length]? with
      | none => exact h
      | some ad =>
          apply ih
          constructor
          · simp only [h.state]
            rfl
          · simp only [h.turn]
            rfl

theorem takeBreak_alike (h : a.Alike b) :
    ((f.under allowed coins).takeBreak fromFallback a).Alike
      (f.takeBreak fromFallback b) := by
  have hdue : (f.under allowed coins).breakDue a.state = f.breakDue b.state := by
    rw [h.state]
    rfl
  unfold takeBreak
  rw [hdue]
  split
  · exact offer_alike _ h
  · exact h

/-- Of the chosen entry a turn asks for the track and the violation. -/
theorem take_alike {chosen chosen' : Scored} (h : a.Alike b)
    (htrack : chosen'.candidate.track = chosen.candidate.track)
    (hviolation : chosen'.violation = chosen.violation) (used used' : Nat) :
    ((f.under allowed coins).take fromFallback a chosen' used').Alike
      (f.take fromFallback b chosen used) := by
  unfold take
  apply takeBreak_alike
  constructor
  · simp only [h.state, htrack, hviolation]
    rfl
  · exact h.turn

end Turns

/-! ## The coins of a run -/

section Coins

theorem coinsUsed_offer (count : Nat) (run : Run) :
    (f.offer fromFallback count run).coinsUsed = run.coinsUsed := by
  induction count generalizing run with
  | zero => rfl
  | succ count ih =>
      unfold offer
      split
      · rfl
      · exact ih _

theorem coinsUsed_take (run : Run) (chosen : Scored) (used : Nat) :
    (f.take fromFallback run chosen used).coinsUsed = used := by
  simp only [take, takeBreak]
  split
  · exact coinsUsed_offer ..
  · rfl

/-- Neither the coins nor the rule for repeats enter into a turn. -/
theorem take_under (allowed : Bool) (coins : Coins) (run : Run) (chosen : Scored) (used : Nat) :
    (f.under allowed coins).take fromFallback run chosen used =
      f.take fromFallback run chosen used := by
  have halike : ((f.under allowed coins).take fromFallback run chosen used).Alike
      (f.take fromFallback run chosen used) := take_alike ⟨rfl, rfl⟩ rfl rfl used used
  exact halike.eq (by rw [coinsUsed_take, coinsUsed_take])

theorem le_coinsUsed_pass (window steps : Nat) (candidates : List Candidate) (run : Run) :
    run.coinsUsed ≤ (f.pass fromFallback window steps candidates run).1.coinsUsed := by
  induction steps generalizing candidates run with
  | zero => exact le_refl _
  | succ steps ih =>
      unfold pass
      split
      · have hchoose := State.le_used_choose f.reckoning run.state f.plan window f.coins
          run.coinsUsed candidates
        split
        · rename_i used hnone
          rw [hnone] at hchoose
          exact hchoose
        · rename_i chosen used hsome
          rw [hsome] at hchoose
          have hlater := ih (candidates.filter (·.index != chosen.candidate.index))
            (f.take fromFallback run chosen used)
          rw [coinsUsed_take] at hlater
          exact hchoose.trans hlater
      · exact le_refl _

/-- A pass that uses no coin uses none in its first turn. -/
theorem used_eq_of_pass {window steps used : Nat} {offered left : List Candidate} {run : Run}
    {chosen : Scored}
    (hsome : run.state.choose f.reckoning f.plan window f.coins run.coinsUsed offered =
      (some chosen, used))
    (huntossed : (f.pass fromFallback window steps left
      (f.take fromFallback run chosen used)).1.coinsUsed = run.coinsUsed) :
    used = run.coinsUsed := by
  have hturn := State.le_used_choose f.reckoning run.state f.plan window f.coins run.coinsUsed
    offered
  have hrest := f.le_coinsUsed_pass fromFallback window steps left
    (f.take fromFallback run chosen used)
  rw [hsome] at hturn
  rw [huntossed, coinsUsed_take] at hrest
  exact Nat.le_antisymm hrest hturn

theorem le_coinsUsed_passes (window : Nat) (pool : List Track) (count : Nat) (run : Run) :
    run.coinsUsed ≤ (f.passes fromFallback window pool count run).coinsUsed := by
  induction count generalizing run with
  | zero => exact le_refl _
  | succ count ih =>
      have hpass := f.le_coinsUsed_pass fromFallback window pool.length (candidates pool) run
      simp only [passes]
      split
      · exact hpass
      · exact hpass.trans (ih _)

end Coins

end Filling

end Rundown
