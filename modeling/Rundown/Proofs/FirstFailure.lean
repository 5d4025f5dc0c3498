/-!
# The first failure

A computation may depend on several conditions and look at one after the other.  It
succeeds if all of them hold, and it fails on account of the first that does not.
That is said here of any list of conditions and any way in which a condition accounts
for an error, and it is kept when computations follow one another.
-/

namespace Rundown

/-- The first of some conditions that does not hold accounts for an error. -/
inductive FailsFirst {ι ε : Type} (Holds : ι → Prop) (Accounts : ι → ε → Prop) :
    List ι → ε → Prop
  | here {i : ι} {rest : List ι} {e : ε} (hfails : ¬ Holds i) (haccounts : Accounts i e) :
      FailsFirst Holds Accounts (i :: rest) e
  | later {i : ι} {rest : List ι} {e : ε} (hholds : Holds i)
      (hrest : FailsFirst Holds Accounts rest e) : FailsFirst Holds Accounts (i :: rest) e

/-- A computation succeeds if all conditions hold, and fails on account of the first
that does not. -/
def DecidedBy {ι ε α : Type} (Holds : ι → Prop) (Accounts : ι → ε → Prop) (conditions : List ι) :
    Except ε α → Prop
  | .ok _ => ∀ i ∈ conditions, Holds i
  | .error e => FailsFirst Holds Accounts conditions e

variable {ι ε α β : Type} {Holds : ι → Prop} {Accounts : ι → ε → Prop}

namespace FailsFirst

variable {first second : List ι} {e e' : ε}

theorem append_right (h : FailsFirst Holds Accounts first e) (second : List ι) :
    FailsFirst Holds Accounts (first ++ second) e := by
  induction h with
  | here hfails haccounts => exact .here hfails haccounts
  | later hholds _ ih => exact .later hholds ih

theorem append_left (hfirst : ∀ i ∈ first, Holds i)
    (h : FailsFirst Holds Accounts second e) : FailsFirst Holds Accounts (first ++ second) e := by
  induction first with
  | nil => exact h
  | cons i rest ih =>
      obtain ⟨hi, hrest⟩ := List.forall_mem_cons.mp hfirst
      exact .later hi (ih hrest)

theorem exists_not (h : FailsFirst Holds Accounts first e) :
    ∃ i ∈ first, ¬ Holds i ∧ Accounts i e := by
  induction h with
  | here hfails haccounts => exact ⟨_, List.mem_cons_self, hfails, haccounts⟩
  | later _ _ ih =>
      obtain ⟨i, hi, hfails⟩ := ih
      exact ⟨i, List.mem_cons_of_mem _ hi, hfails⟩

/-- Conditions that account for one error each leave no doubt about the error. -/
theorem unique (hone : ∀ i e e', Accounts i e → Accounts i e' → e = e')
    (h : FailsFirst Holds Accounts first e) (h' : FailsFirst Holds Accounts first e') :
    e = e' := by
  induction h with
  | here hfails haccounts =>
      cases h' with
      | here _ haccounts' => exact hone _ _ _ haccounts haccounts'
      | later hholds _ => exact absurd hholds hfails
  | later hholds _ ih =>
      cases h' with
      | here hfails _ => exact absurd hholds hfails
      | later _ hrest => exact ih hrest

end FailsFirst

namespace DecidedBy

variable {first second : List ι} {x : Except ε α} {f : α → Except ε β}

theorem ok (a : α) : DecidedBy Holds Accounts [] (.ok a : Except ε α) :=
  List.forall_mem_nil _

theorem ok_of_holds {i : ι} (hi : Holds i) (a : α) :
    DecidedBy Holds Accounts [i] (.ok a : Except ε α) :=
  List.forall_mem_singleton.mpr hi

/-- Conditions of computations that follow one another follow one another. -/
theorem bind (hx : DecidedBy Holds Accounts first x)
    (hf : ∀ a, DecidedBy Holds Accounts second (f a)) :
    DecidedBy Holds Accounts (first ++ second) (x >>= f) := by
  cases x with
  | error e => exact FailsFirst.append_right hx second
  | ok a =>
      have hsecond := hf a
      change DecidedBy Holds Accounts (first ++ second) (f a)
      cases hout : f a with
      | error e =>
          rw [hout] at hsecond
          exact FailsFirst.append_left hx hsecond
      | ok b =>
          rw [hout] at hsecond
          exact List.forall_mem_append.mpr ⟨hx, hsecond⟩

/-- What follows without a condition changes nothing. -/
theorem bind_ok (hx : DecidedBy Holds Accounts first x) (g : α → β) :
    DecidedBy Holds Accounts first (x >>= fun a => .ok (g a)) := by
  rw [← List.append_nil first]
  exact hx.bind fun a => ok (g a)

/-- A condition that is known to hold may be looked at first. -/
theorem cons {i : ι} {conditions : List ι} (hi : Holds i)
    (hx : DecidedBy Holds Accounts conditions x) : DecidedBy Holds Accounts (i :: conditions) x := by
  cases x with
  | error e => exact .later hi hx
  | ok a => exact List.forall_mem_cons.mpr ⟨hi, hx⟩

theorem mapM {f : ι → Except ε β} (hf : ∀ i, DecidedBy Holds Accounts [i] (f i))
    (items : List ι) : DecidedBy Holds Accounts items (items.mapM f) := by
  induction items with
  | nil => exact ok []
  | cons i rest ih =>
      rw [List.mapM_cons]
      exact (hf i).bind fun b => ih.bind_ok _

theorem foldlM {γ : Type} {f : β → γ → Except ε β} {condition : γ → ι}
    (hf : ∀ b a, DecidedBy Holds Accounts [condition a] (f b a)) (items : List γ) (b : β) :
    DecidedBy Holds Accounts (items.map condition) (items.foldlM f b) := by
  induction items generalizing b with
  | nil => exact ok b
  | cons a rest ih =>
      rw [List.foldlM_cons]
      exact (hf b a).bind fun b => ih b

theorem exists_ok_iff (h : DecidedBy Holds Accounts first x) :
    (∃ a, x = .ok a) ↔ ∀ i ∈ first, Holds i := by
  cases x with
  | error e =>
      obtain ⟨i, hi, hfails, _⟩ := FailsFirst.exists_not h
      constructor
      · rintro ⟨a, ha⟩
        cases ha
      · intro hall
        exact absurd (hall i hi) hfails
  | ok a => exact ⟨fun _ => h, fun _ => ⟨a, rfl⟩⟩

theorem exists_error_iff (h : DecidedBy Holds Accounts first x) :
    (∃ e, x = .error e) ↔ ∃ i ∈ first, ¬ Holds i := by
  cases x with
  | error e =>
      obtain ⟨i, hi, hfails, _⟩ := FailsFirst.exists_not h
      exact ⟨fun _ => ⟨i, hi, hfails⟩, fun _ => ⟨e, rfl⟩⟩
  | ok a =>
      constructor
      · rintro ⟨e, he⟩
        cases he
      · rintro ⟨i, hi, hfails⟩
        exact absurd (h i hi) hfails

theorem error_iff (hone : ∀ i e e', Accounts i e → Accounts i e' → e = e')
    (h : DecidedBy Holds Accounts first x) {e : ε} :
    x = .error e ↔ FailsFirst Holds Accounts first e := by
  cases x with
  | error other =>
      constructor
      · rintro ⟨⟩
        exact h
      · intro hfirst
        rw [FailsFirst.unique hone h hfirst]
  | ok a =>
      constructor
      · intro ha
        cases ha
      · intro hfirst
        obtain ⟨i, hi, hfails, _⟩ := hfirst.exists_not
        exact absurd (h i hi) hfails

end DecidedBy

end Rundown
