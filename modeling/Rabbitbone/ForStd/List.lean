import Mathlib.Data.List.DropRight

/-!
# Lists

Lemmas about lists that the models use and the library does not have.
-/

namespace List

variable {α : Type*}

/-- What `rdropWhile` drops may be cut off first. -/
theorem rdropWhile_append_of_pos {p : α → Bool} {l₁ l₂ : List α} (h : ∀ a ∈ l₂, p a = true) :
    (l₁ ++ l₂).rdropWhile p = l₁.rdropWhile p := by
  unfold rdropWhile
  rw [reverse_append, dropWhile_append_of_pos]
  simpa using h

/-- Two marked elements of one list: the same one, or one before the other. -/
theorem append_cons_eq_append_cons {l₁ l₂ m₁ m₂ : List α} {a b : α}
    (h : l₁ ++ a :: l₂ = m₁ ++ b :: m₂) :
    (l₁ = m₁ ∧ a = b ∧ l₂ = m₂) ∨ (∃ t, l₁ = m₁ ++ b :: t ∧ m₂ = t ++ a :: l₂) ∨
      ∃ t, m₁ = l₁ ++ a :: t ∧ l₂ = t ++ b :: m₂ := by
  rcases append_eq_append_iff.mp h with ⟨t, rfl, ht⟩ | ⟨t, rfl, ht⟩
  · cases t with
    | nil => simp_all
    | cons c t =>
      obtain ⟨rfl, rfl⟩ := cons.inj ht
      exact .inr (.inr ⟨t, rfl, rfl⟩)
  · cases t with
    | nil => simp_all
    | cons c t =>
      obtain ⟨rfl, rfl⟩ := cons.inj ht
      exact .inr (.inl ⟨t, rfl, rfl⟩)

end List
