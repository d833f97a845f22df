import Mathlib.Logic.Function.Basic

/-!
# A table with an entry checked out

A table keeps records by key, and one of them may be checked out: a live copy is worked on and
written back later, so that the entry of the table may be out of date.  `view` is the table as it is
meant: the live copy stands for its entry.
-/

namespace LiveCopy

open Function

variable {κ α : Type*} [DecidableEq κ]

/-- The records, with the live copy in place of its entry. -/
def view (table : κ → Option α) : Option (κ × α) → κ → Option α
  | none => table
  | some (i, c) => update table i (some c)

variable {table : κ → Option α} {i j : κ} {c c' : α}

@[simp] theorem view_none : view table none = table := rfl

@[simp] theorem view_live : view table (some (i, c)) i = some c := update_self ..

theorem view_of_ne (h : j ≠ i) : view table (some (i, c)) j = table j := update_of_ne h ..

/-- Another live copy in place of the first. -/
theorem view_replace :
    view table (some (i, c')) = update (view table (some (i, c))) i (some c') := by
  simp [view]

/-- To write the live copy back changes nothing. -/
theorem view_writeBack :
    view (update table i (some c)) (some (i, c)) = view table (some (i, c)) := by
  simp [view]

/-- The live copy can be given up once it is written back. -/
theorem view_drop : view (update table i (some c)) none = view table (some (i, c)) := rfl

/-- A change to another entry. -/
theorem view_update (h : j ≠ i) (x : Option α) : view (update table j x) (some (i, c)) =
      update (view table (some (i, c))) j x := by
  simp only [view]
  exact update_comm h ..

/-- A change to all entries does not reach the live copy. -/
theorem view_map (f : κ → α → α) : view (fun k => (table k).map (f k)) (some (i, c)) =
      fun k => if k = i then some c else (view table (some (i, c)) k).map (f k) := by
  funext k
  by_cases h : k = i
  · subst h
    simp
  · rw [view_of_ne h, view_of_ne h, if_neg h]

end LiveCopy
