import Mathlib.Algebra.BigOperators.Group.Finset.Basic
import Mathlib.Algebra.Order.BigOperators.Group.Finset

/-!
# Counts and sums that change at one place
-/

namespace Finset

variable {α : Type*} [DecidableEq α] {s : Finset α} {j : α}

/-- One element stops to be counted. -/
theorem card_filter_eq_succ {p q : α → Prop} [DecidablePred p] [DecidablePred q] (hj : j ∈ s)
    (hp : p j) (hq : ¬q j) (h : ∀ i ∈ s, i ≠ j → (q i ↔ p i)) :
    (s.filter p).card = (s.filter q).card + 1 := by
  have hins : s.filter p = insert j (s.filter q) := by
    ext i
    by_cases hij : i = j
    · subst hij
      simp [hj, hp]
    simp only [mem_filter, mem_insert, hij, false_or]
    constructor
    · exact fun ⟨hi, hpi⟩ => ⟨hi, (h i hi hij).mpr hpi⟩
    · exact fun ⟨hi, hqi⟩ => ⟨hi, (h i hi hij).mp hqi⟩
  rw [hins, card_insert_of_notMem (by simp [hq])]

/-- Two sums that differ in one term. -/
theorem sum_add_eq_sum_add {M : Type*} [AddCommMonoid M] {f g : α → M} (hj : j ∈ s)
    (h : ∀ i ∈ s, i ≠ j → f i = g i) : ∑ i ∈ s, f i + g j = ∑ i ∈ s, g i + f j := by
  have herase : ∑ i ∈ s.erase j, f i = ∑ i ∈ s.erase j, g i :=
    sum_congr rfl fun i hi => h i (mem_of_mem_erase hi) (ne_of_mem_erase hi)
  rw [← add_sum_erase s f hj, ← add_sum_erase s g hj, herase]
  ac_rfl

end Finset
