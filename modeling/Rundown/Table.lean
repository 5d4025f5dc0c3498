/-!
# Small tables

A finite map kept as a list with at most one entry for each key.
-/

namespace Rundown

/-- Keys with their values. -/
abbrev Table (κ ν : Type) := List (κ × ν)

namespace Table

variable {κ ν : Type} [DecidableEq κ]

/-- The value of a key. -/
def get? : Table κ ν → κ → Option ν
  | [], _ => none
  | (name, value) :: rest, key => if name = key then some value else get? rest key

/-- Set the value of a key. -/
def put : Table κ ν → κ → ν → Table κ ν
  | [], key, value => [(key, value)]
  | (name, old) :: rest, key, value =>
      if name = key then (key, value) :: rest else (name, old) :: put rest key value

/-- The table of some entries, of which the last one of a key counts. -/
def ofList (entries : List (κ × ν)) : Table κ ν :=
  entries.foldl (fun table entry => put table entry.1 entry.2) []

@[simp]
theorem get?_nil (key : κ) : get? ([] : Table κ ν) key = none := rfl

theorem get?_put (table : Table κ ν) (key other : κ) (value : ν) :
    get? (put table key value) other = if key = other then some value else get? table other := by
  induction table with
  | nil => simp [put, get?]
  | cons entry rest ih =>
    obtain ⟨name, old⟩ := entry
    by_cases same : name = key
    · subst same
      by_cases hit : name = other <;> simp [put, get?, hit]
    · by_cases hit : name = other
      · have differs : ¬ key = other := fun h => same (hit.trans h.symm)
        subst hit
        simp [put, get?, same, differs]
      · simp [put, get?, same, hit, ih]

end Table

end Rundown
