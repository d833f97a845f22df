import Mathlib.Data.List.Basic

/-!
# Runs of a machine

A machine takes one event after the other.  `Always P` says that `P` holds in every state of a run,
the first one included, and `Allowed A` that every event of it is one that `A` allows in the state
it meets.
-/

namespace Run

variable {σ ε : Type*} (step : σ → ε → σ)

/-- `P` holds in every state of the run. -/
def Always (P : σ → Prop) : σ → List ε → Prop
  | s, [] => P s
  | s, e :: es => P s ∧ Always P (step s e) es

/-- `A` allows every event of the run in the state before it. -/
def Allowed (A : σ → ε → Prop) : σ → List ε → Prop
  | _, [] => True
  | s, e :: es => A s e ∧ Allowed A (step s e) es

variable {step} {P I B : σ → Prop} {A : σ → ε → Prop}

theorem Always.head {s : σ} : ∀ {es : List ε}, Always step P s es → P s
  | [], h => h
  | _ :: _, h => h.1

/-- A bound on the last state that no event undoes is a bound on every state. -/
theorem bound_of_foldl (hmono : ∀ s e, B (step s e) → B s) {es : List ε} {s : σ}
    (h : B (es.foldl step s)) : B s := by
  induction es generalizing s with
  | nil => exact h
  | cons e es ih => exact hmono s e (ih h)

/-- If the allowed events keep an invariant that implies `P`, and the others lead to states without
`P`, then `P` holds all along a run exactly if all its events are allowed. -/
theorem always_iff_allowed (hmono : ∀ s e, B (step s e) → B s) (hsound : ∀ s, I s → P s)
    (hkeep : ∀ s e, I s → B (step s e) → A s e → I (step s e))
    (hbreak : ∀ s e, I s → ¬A s e → ¬P (step s e)) {es : List ε} {s : σ} (hI : I s)
    (hB : B (es.foldl step s)) : Always step P s es ↔ Allowed step A s es := by
  induction es generalizing s with
  | nil => exact iff_of_true (hsound s hI) trivial
  | cons e es ih =>
    have hBe : B (step s e) := bound_of_foldl hmono hB
    rw [Always, Allowed]
    constructor
    · intro h
      have hA : A s e := by
        by_contra hA
        exact hbreak s e hI hA h.2.head
      exact ⟨hA, (ih (hkeep s e hI hBe hA) hB).mp h.2⟩
    · intro h
      exact ⟨hsound s hI, (ih (hkeep s e hI hBe h.1) hB).mpr h.2⟩

/-- If the allowed events keep an invariant that implies `P`, then `P` holds all along a run of
them. -/
theorem always_of_allowed (hsound : ∀ s, I s → P s) (hkeep : ∀ s e, I s → A s e → I (step s e))
    {es : List ε} {s : σ} (hI : I s) (h : Allowed step A s es) : Always step P s es := by
  induction es generalizing s with
  | nil => exact hsound s hI
  | cons e es ih => exact ⟨hsound s hI, ih (hkeep s e hI h.1) h.2⟩

end Run
