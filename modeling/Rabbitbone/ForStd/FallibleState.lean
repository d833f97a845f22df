import Mathlib.Logic.Basic

/-!
# Programs that change a state and may fail

`FallibleState σ ε α` is a computation on a state `σ` that returns an `α` or fails with an `ε`.
Unlike with an exception that undoes its effects, a failed computation keeps the state it has
reached, as a C function does that returns an error code halfway.

The `*_of_*` lemmas run a computation forwards.  The `*_ok` lemmas read a successful run backwards,
one construct at a time: from `(x >>= f).run s = (.ok b, s')` to the run of `x` and the run of `f`
behind it.
-/

/-- A computation on the state `σ` that may fail. -/
structure FallibleState (σ ε α : Type) : Type where
  run : σ → Except ε α × σ

namespace FallibleState

variable {σ ε α β : Type}

instance : Monad (FallibleState σ ε) where
  pure a := ⟨fun s => (.ok a, s)⟩
  bind x f := ⟨fun s =>
    match x.run s with
    | (.ok a, s') => (f a).run s'
    | (.error e, s') => (.error e, s')⟩

/-- Fail. -/
def fail (e : ε) : FallibleState σ ε α := ⟨fun s => (.error e, s)⟩

/-- The state. -/
def get : FallibleState σ ε σ := ⟨fun s => (.ok s, s)⟩

/-- Change the state. -/
def modify (f : σ → σ) : FallibleState σ ε Unit := ⟨fun s => (.ok (), f s)⟩

/-- Go on only if `c` holds. -/
def require (c : Prop) [Decidable c] (e : ε) : FallibleState σ ε Unit :=
  if c then pure () else fail e

/-- The value of `o`, or a failure if there is none. -/
def ofOption (o : Option α) (e : ε) : FallibleState σ ε α :=
  match o with
  | some a => pure a
  | none => fail e

/-- Run `x` and return its outcome instead of failing. -/
def attempt (x : FallibleState σ ε α) : FallibleState σ ε (Except ε α) :=
  ⟨fun s => (.ok (x.run s).1, (x.run s).2)⟩

/-- The value or the failure that `r` is. -/
def ofExcept (r : Except ε α) : FallibleState σ ε α := ⟨fun s => (r, s)⟩

/-- Run `x`; if it fails, run `undo` before the error is returned, whatever becomes of it. -/
def undoing (x : FallibleState σ ε α) (undo : FallibleState σ ε Unit) : FallibleState σ ε α :=
  ⟨fun s =>
    match x.run s with
    | (.ok a, s') => (.ok a, s')
    | (.error e, s') => (.error e, (undo.run s').2)⟩

/-- `for (i = start; ..; ++i)` with `count` turns left; `a` goes from turn to turn. -/
def forLoop (step : Nat → α → FallibleState σ ε α) : Nat → Nat → α → FallibleState σ ε α
  | 0, _, a => pure a
  | count + 1, i, a => do
    let a ← step i a
    forLoop step count (i + 1) a

/-! ### Forwards -/

theorem run_pure (a : α) (s : σ) : (pure a : FallibleState σ ε α).run s = (.ok a, s) := rfl

theorem run_get (s : σ) : (get : FallibleState σ ε σ).run s = (.ok s, s) := rfl

theorem run_modify (f : σ → σ) (s : σ) :
    (modify f : FallibleState σ ε Unit).run s = (.ok (), f s) := rfl

theorem run_fail (e : ε) (s : σ) : (fail e : FallibleState σ ε α).run s = (.error e, s) := rfl

variable {x : FallibleState σ ε α} {s s' : σ} {a : α} {e : ε} {c : Prop} {o : Option α} {b : β}
  {r : Except ε α} {undo : FallibleState σ ε Unit}

/-- Running past a step that succeeds. -/
theorem bind_of_ok {f : α → FallibleState σ ε β} {s₁ : σ} (h : x.run s = (.ok a, s₁)) :
    (x >>= f).run s = (f a).run s₁ := by
  simp only [bind, h]

/-- A step that fails ends the run. -/
theorem bind_of_error {f : α → FallibleState σ ε β} {s₁ : σ} (h : x.run s = (.error e, s₁)) :
    (x >>= f).run s = (.error e, s₁) := by
  simp only [bind, h]

theorem run_get_bind (f : σ → FallibleState σ ε β) (s : σ) : (get >>= f).run s = (f s).run s := rfl

theorem run_modify_bind (g : σ → σ) (f : Unit → FallibleState σ ε β) (s : σ) :
    (modify g >>= f).run s = (f ()).run (g s) := rfl

/-- A check that holds. -/
theorem require_of_pos [Decidable c] (h : c) :
    (require c e : FallibleState σ ε Unit).run s = (.ok (), s) := by
  rw [require, if_pos h, run_pure]

/-- A check that fails. -/
theorem require_of_neg [Decidable c] (h : ¬c) :
    (require c e : FallibleState σ ε Unit).run s = (.error e, s) := by
  rw [require, if_neg h, run_fail]

theorem ofOption_of_some (h : o = some a) :
    (ofOption o e : FallibleState σ ε α).run s = (.ok a, s) := by
  rw [h, ofOption, run_pure]

theorem ofOption_of_none (h : o = none) :
    (ofOption o e : FallibleState σ ε α).run s = (.error e, s) := by
  rw [h, ofOption, run_fail]

/-! ### Backwards -/

/-- The inversion rule of sequencing: both steps have succeeded. -/
theorem bind_ok {f : α → FallibleState σ ε β} :
    (x >>= f).run s = (.ok b, s') ↔ ∃ a s₁, x.run s = (.ok a, s₁) ∧ (f a).run s₁ = (.ok b, s') := by
  match h : x.run s with
  | (.ok a, s₁) =>
    rw [bind_of_ok h]
    constructor
    · exact fun hf => ⟨a, s₁, rfl, hf⟩
    · rintro ⟨a', s₁', heq, hf⟩
      cases heq
      exact hf
  | (.error e, s₁) => simp [bind_of_error h]

theorem pure_ok {b : α} : (pure a : FallibleState σ ε α).run s = (.ok b, s') ↔ b = a ∧ s' = s := by
  rw [run_pure, Prod.mk.injEq, Except.ok.injEq, eq_comm, @eq_comm _ s]

theorem fail_ok {b : α} : (fail e : FallibleState σ ε α).run s = (.ok b, s') ↔ False := by
  simp [run_fail]

theorem get_ok {s s' r : σ} :
    (get : FallibleState σ ε σ).run s = (.ok r, s') ↔ r = s ∧ s' = s := pure_ok

theorem modify_ok {f : σ → σ} {u : Unit} :
    (modify f : FallibleState σ ε Unit).run s = (.ok u, s') ↔ s' = f s := by
  simp [run_modify, eq_comm]

/-- A check that was passed held, and changed nothing. -/
theorem require_ok [Decidable c] {u : Unit} :
    (require c e : FallibleState σ ε Unit).run s = (.ok u, s') ↔ c ∧ s' = s := by
  by_cases h : c
  · rw [require_of_pos h]
    simp [h, eq_comm]
  · rw [require_of_neg h]
    simp [h]

theorem ofOption_ok :
    (ofOption o e : FallibleState σ ε α).run s = (.ok a, s') ↔ o = some a ∧ s' = s := by
  cases o with
  | none => simp [ofOption_of_none rfl]
  | some b => simp [ofOption_of_some rfl, eq_comm]

theorem get_bind_ok {f : σ → FallibleState σ ε β} :
    (get >>= f).run s = (.ok b, s') ↔ (f s).run s = (.ok b, s') := by
  rw [bind_of_ok (run_get s)]

theorem modify_bind_ok {g : σ → σ} {f : Unit → FallibleState σ ε β} :
    (modify g >>= f).run s = (.ok b, s') ↔ (f ()).run (g s) = (.ok b, s') := by
  rw [bind_of_ok (run_modify g s)]

theorem require_bind_ok [Decidable c] {f : Unit → FallibleState σ ε β} :
    (require c e >>= f).run s = (.ok b, s') ↔ c ∧ (f ()).run s = (.ok b, s') := by
  by_cases h : c
  · rw [bind_of_ok (require_of_pos h)]
    simp [h]
  · rw [bind_of_error (require_of_neg h)]
    simp [h]

/-- An attempt succeeds with whatever came out. -/
theorem attempt_ok : (attempt x).run s = (.ok r, s') ↔ x.run s = (r, s') := by
  simp [attempt, Prod.ext_iff]

theorem ofExcept_ok :
    (ofExcept r : FallibleState σ ε α).run s = (.ok a, s') ↔ r = .ok a ∧ s' = s := by
  simp [ofExcept, eq_comm]

/-- What succeeds is not undone. -/
theorem undoing_ok : (undoing x undo).run s = (.ok a, s') ↔ x.run s = (.ok a, s') := by
  match h : x.run s with
  | (.ok a', s₁) => simp [undoing, h]
  | (.error e, s₁) => simp [undoing, h]

/-! ### Failures -/

/-- Of two steps, the first or the second has failed. -/
theorem bind_error {f : α → FallibleState σ ε β} : (x >>= f).run s = (.error e, s') ↔
      x.run s = (.error e, s') ∨ ∃ a s₁, x.run s = (.ok a, s₁) ∧ (f a).run s₁ = (.error e, s') := by
  match h : x.run s with
  | (.ok a, s₁) =>
    rw [bind_of_ok h]
    constructor
    · exact fun hf => Or.inr ⟨a, s₁, rfl, hf⟩
    · rintro (heq | ⟨a', s₁', heq, hf⟩)
      · exact nomatch heq
      · cases heq
        exact hf
  | (.error e', s₁) =>
    rw [bind_of_error h]
    simp

/-- What fails is undone, from the state it has failed in. -/
theorem undoing_error : (undoing x undo).run s = (.error e, s') ↔
      ∃ s₁, x.run s = (.error e, s₁) ∧ s' = (undo.run s₁).2 := by
  match h : x.run s with
  | (.ok a, s₁) => simp [undoing, h]
  | (.error e', s₁) =>
    simp only [undoing, h, Prod.mk.injEq, Except.error.injEq]
    constructor
    · rintro ⟨rfl, rfl⟩
      exact ⟨s₁, ⟨rfl, rfl⟩, rfl⟩
    · rintro ⟨_, ⟨rfl, rfl⟩, rfl⟩
      exact ⟨rfl, rfl⟩

/-! ### What a computation leaves alone -/

/-- Whatever `x` does, it leaves `f` of the state as it is. -/
def Preserves {γ : Type*} (x : FallibleState σ ε α) (f : σ → γ) : Prop :=
  ∀ s, f (x.run s).2 = f s

namespace Preserves

variable {γ : Type*} {f : σ → γ}

/-- The frame rule: what a computation preserves is the same after a run. -/
theorem eq (h : Preserves x f) (hrun : x.run s = (r, s')) : f s' = f s := by
  rw [← h s, hrun]

theorem pure (a : α) : Preserves (pure a : FallibleState σ ε α) f := fun _ => rfl

theorem fail (e : ε) : Preserves (fail e : FallibleState σ ε α) f := fun _ => rfl

theorem get : Preserves (get : FallibleState σ ε σ) f := fun _ => rfl

theorem modify {g : σ → σ} (h : ∀ s, f (g s) = f s) :
    Preserves (modify g : FallibleState σ ε Unit) f := h

/-- Steps that preserve `f` do so one after the other. -/
theorem bind {k : α → FallibleState σ ε β} (hx : Preserves x f) (hk : ∀ a, Preserves (k a) f) :
    Preserves (x >>= k) f := by
  intro s
  match h : x.run s with
  | (.ok a, s₁) => rw [bind_of_ok h, hk a s₁, hx.eq h]
  | (.error e, s₁) => rw [bind_of_error h, hx.eq h]

theorem require (c : Prop) [Decidable c] (e : ε) :
    Preserves (require c e : FallibleState σ ε Unit) f := by
  intro s
  by_cases h : c
  · rw [require_of_pos h]
  · rw [require_of_neg h]

theorem attempt {x : FallibleState σ ε α} (h : Preserves x f) : Preserves (attempt x) f := h

end Preserves

/-! ### Invariants -/

/-- Whatever `x` does and however it ends, `P` holds behind it if it did before. -/
def Keeps (P : σ → Prop) (x : FallibleState σ ε α) : Prop := ∀ s, P s → P (x.run s).2

namespace Keeps

variable {P : σ → Prop}

/-- The invariant rule: what a computation keeps holds after a run. -/
theorem of_run (h : Keeps P x) (hs : P s) (hrun : x.run s = (r, s')) : P s' := by
  have hx := h s hs
  rwa [hrun] at hx

theorem pure (a : α) : Keeps P (pure a : FallibleState σ ε α) := fun _ h => h

theorem fail (e : ε) : Keeps P (fail e : FallibleState σ ε α) := fun _ h => h

theorem get : Keeps P (get : FallibleState σ ε σ) := fun _ h => h

theorem modify {g : σ → σ} (h : ∀ s, P s → P (g s)) :
    Keeps P (modify g : FallibleState σ ε Unit) := h

/-- Steps that keep `P` do so one after the other. -/
theorem bind {k : α → FallibleState σ ε β} (hx : Keeps P x) (hk : ∀ a, Keeps P (k a)) :
    Keeps P (x >>= k) := by
  intro s hs
  match h : x.run s with
  | (.ok a, s₁) =>
    rw [bind_of_ok h]
    exact hk a s₁ (hx.of_run hs h)
  | (.error e, s₁) =>
    rw [bind_of_error h]
    exact hx.of_run hs h

theorem require (c : Prop) [Decidable c] (e : ε) :
    Keeps P (require c e : FallibleState σ ε Unit) := by
  intro s hs
  by_cases h : c
  · rw [require_of_pos h]
    exact hs
  · rw [require_of_neg h]
    exact hs

theorem ofOption (o : Option α) (e : ε) : Keeps P (ofOption o e : FallibleState σ ε α) := by
  cases o <;> exact fun _ h => h

theorem attempt {x : FallibleState σ ε α} (h : Keeps P x) : Keeps P (attempt x) := h

/-- Undoing keeps what both parts keep. -/
theorem undoing (hx : Keeps P x) (hundo : Keeps P undo) : Keeps P (undoing x undo) := by
  intro s hs
  rw [FallibleState.undoing]
  dsimp only
  match h : x.run s with
  | (.ok a, s₁) => exact hx.of_run hs h
  | (.error e, s₁) => exact hundo s₁ (hx.of_run hs h)

end Keeps

end FallibleState
