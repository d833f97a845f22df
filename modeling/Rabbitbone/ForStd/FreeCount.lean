import Mathlib.Algebra.BigOperators.Group.Finset.Basic
import Mathlib.Algebra.Order.BigOperators.Group.Finset
import Rabbitbone.ForStd.Finset

/-!
# Free counts of grouped bitmaps

An allocator keeps one bitmap per group, and beside it how many bits of the group are clear and how
many are clear in all.  `FreeCount` says that these numbers are right, `TakenBit` that two states of
such an allocator differ by one bit that was taken.

## Key results

- `TakenBit.freeCount_iff`: the numbers are right before a bit is taken iff they are right after it;
  read from right to left, this is giving the bit back.
- `FreeCount.free_le`, `FreeCount.total_le`: no count exceeds the number of bits it counts.
-/

open Finset

variable {n total total' j i : Nat} {dom : Nat → Finset Nat} {bit bit' : Nat → Nat → Bool}
  {free free' : Nat → Nat}

/-- For each of `n` groups `free g` is the number of clear bits among those in `dom g`, and `total`
is the sum. -/
structure FreeCount (n : Nat) (dom : Nat → Finset Nat) (bit : Nat → Nat → Bool) (free : Nat → Nat)
    (total : Nat) : Prop where
  group : ∀ g < n, free g = ((dom g).filter fun k => bit g k = false).card
  sum : total = ∑ g ∈ range n, free g

theorem FreeCount.free_le (h : FreeCount n dom bit free total) {g : Nat} (hg : g < n) :
    free g ≤ (dom g).card := by
  rw [h.group g hg]
  exact card_filter_le _ _

theorem FreeCount.total_le (h : FreeCount n dom bit free total) :
    total ≤ ∑ g ∈ range n, (dom g).card := by
  rw [h.sum]
  exact sum_le_sum fun g hg => h.free_le (mem_range.mp hg)

/-- Counts are right of equal bits. -/
theorem FreeCount.congr (h : FreeCount n dom bit free total)
    (hbit : ∀ g < n, ∀ k ∈ dom g, bit' g k = bit g k) (hfree : ∀ g < n, free' g = free g)
    (htotal : total' = total) : FreeCount n dom bit' free' total' := by
  constructor
  · intro g hg
    rw [hfree g hg, h.group g hg]
    congr 1
    apply filter_congr
    intro k hk
    rw [hbit g hg k hk]
  · rw [htotal, h.sum]
    exact sum_congr rfl fun g hg => (hfree g (mem_range.mp hg)).symm

/-- The bit `i` of the group `j` is clear before and set after, the counts follow, and nothing else
has changed. -/
structure TakenBit (n : Nat) (dom : Nat → Finset Nat) (j i : Nat) (bit : Nat → Nat → Bool)
    (free : Nat → Nat) (total : Nat) (bit' : Nat → Nat → Bool) (free' : Nat → Nat) (total' : Nat) :
    Prop where
  group_lt : j < n
  mem : i ∈ dom j
  clear : bit j i = false
  set : bit' j i = true
  other : ∀ g < n, ∀ k ∈ dom g, ¬(g = j ∧ k = i) → bit' g k = bit g k
  freeAt : free j = free' j + 1
  freeOther : ∀ g < n, g ≠ j → free' g = free g
  totalEq : total = total' + 1

namespace TakenBit

section

variable (h : TakenBit n dom j i bit free total bit' free' total')
include h

/-- The group of the bit has one clear bit less. -/
theorem card_eq : ((dom j).filter fun k => bit j k = false).card
      = ((dom j).filter fun k => bit' j k = false).card + 1 := by
  apply card_filter_eq_succ h.mem h.clear
  · rw [h.set]
    exact Bool.noConfusion
  · intro k hk hne
    rw [h.other j h.group_lt k hk fun hki => hne hki.2]

/-- The other groups have as many clear bits as before. -/
theorem card_other {g : Nat} (hg : g < n) (hgj : g ≠ j) :
    ((dom g).filter fun k => bit' g k = false).card
      = ((dom g).filter fun k => bit g k = false).card := by
  congr 1
  apply filter_congr
  intro k hk
  rw [h.other g hg k hk fun hgk => hgj hgk.1]

/-- One free bit less in all. -/
theorem sum_eq : ∑ g ∈ range n, free g = ∑ g ∈ range n, free' g + 1 := by
  have hsum := sum_add_eq_sum_add (mem_range.mpr h.group_lt)
    fun g hg hne => h.freeOther g (mem_range.mp hg) hne
  have hfree := h.freeAt
  omega

/-- Taking a bit, or giving it back, keeps the counts right. -/
theorem freeCount_iff : FreeCount n dom bit free total ↔ FreeCount n dom bit' free' total' := by
  have hcard := h.card_eq
  have hsum := h.sum_eq
  have hfree := h.freeAt
  have htotal := h.totalEq
  -- Both directions compare the group `j` by `card_eq` and the others by `card_other`.
  constructor
  · intro hc
    refine ⟨fun g hg => ?_, ?_⟩
    · by_cases hgj : g = j
      · subst hgj
        have hg' := hc.group g hg
        omega
      · rw [h.freeOther g hg hgj, h.card_other hg hgj]
        exact hc.group g hg
    · have htotal' := hc.sum
      omega
  · intro hc
    refine ⟨fun g hg => ?_, ?_⟩
    · by_cases hgj : g = j
      · subst hgj
        have hg' := hc.group g hg
        omega
      · rw [← h.freeOther g hg hgj, ← h.card_other hg hgj]
        exact hc.group g hg
    · have htotal' := hc.sum
      omega

end

end TakenBit

/-! ### Things numbered through the groups -/

/-- How many of `total` things are in the group `g`, when each group has room for `per`. -/
def chunk (total per g : Nat) : Nat :=
  if total ≤ g * per then 0 else if total - g * per < per then total - g * per else per

theorem chunk_le (total per g : Nat) : chunk total per g ≤ per := by
  unfold chunk
  split
  · omega
  · split <;> omega

/-- A thing has its place in its own group. -/
theorem mod_lt_chunk {total per x : Nat} (hper : 0 < per) (h : x < total) :
    x % per < chunk total per (x / per) := by
  have hx := Nat.div_add_mod' x per
  have hmod := Nat.mod_lt x hper
  unfold chunk
  split
  · omega
  · split <;> omega

/-- The groups hold no more than there is. -/
theorem sum_chunk_le (total per n : Nat) : ∑ g ∈ range n, chunk total per g ≤ total := by
  have hle : ∑ g ∈ range n, chunk total per g ≤ min (n * per) total := by
    induction n with
    | zero => simp
    | succ n ih =>
      rw [sum_range_succ, Nat.succ_mul]
      unfold chunk at ih ⊢
      split
      · omega
      · split <;> omega
  omega
