/-!
# Checks that fail

A C function that checks its arguments one by one and returns an error code becomes a chain of
`if`s in `Except`.  These lemmas read a successful outcome of such a chain backwards, one check at a
time.
-/

namespace Except

variable {ε α β : Type} {e : ε} {c : Prop} [Decidable c] {a : α}

/-- A check was passed. -/
theorem ite_error_eq_ok {x : Except ε α} :
    (if c then .error e else x) = .ok a ↔ ¬c ∧ x = .ok a := by
  by_cases h : c
  · simp [h]
  · simp [h]

theorem dite_error_eq_ok {x : ¬c → Except ε α} :
    (if h : c then .error e else x h) = .ok a ↔ ∃ h : ¬c, x h = .ok a := by
  by_cases h : c
  · simp [h]
  · simp [h]

/-- Two steps succeed one after the other. -/
theorem bind_eq_ok {x : Except ε α} {f : α → Except ε β} {b : β} :
    (x >>= f) = .ok b ↔ ∃ a, x = .ok a ∧ f a = .ok b := by
  cases x with
  | error e => simp [bind, Except.bind]
  | ok a => simp [bind, Except.bind]

end Except
