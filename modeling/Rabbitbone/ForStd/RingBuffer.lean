import Mathlib.Data.Nat.Notation

/-!
# Ring buffers

A queue in `cap` cells: `size` elements from the cell `start` on and round the end.  The cells that
are not in use hold what they held before.

The operations are stated on `contents`, the queue as a list: `contents_pushList` and
`contents_popList` say that what is pushed comes behind the contents and what is popped was in front
of them.
-/

/-- A queue of at most `cap` elements in a ring of cells. -/
structure RingBuffer (α : Type*) (cap : ℕ) where
  cells : ℕ → α
  start : ℕ
  size : ℕ
  start_lt : start < cap
  size_le : size ≤ cap

namespace RingBuffer

open List

variable {α : Type*} {cap : ℕ}

/-- The queue, the oldest element first. -/
def contents (r : RingBuffer α cap) : List α :=
  (range r.size).map fun i => r.cells ((r.start + i) % cap)

/-- Put an element behind the others, if there is room. -/
def push (r : RingBuffer α cap) (a : α) : RingBuffer α cap :=
  if h : r.size < cap then
    { r with
      cells := fun i => if i = (r.start + r.size) % cap then a else r.cells i
      size := r.size + 1
      size_le := h }
  else r

/-- Put elements behind the others, as far as there is room. -/
def pushList (r : RingBuffer α cap) (l : List α) : RingBuffer α cap := l.foldl push r

/-- Take the oldest element away. -/
def pop (r : RingBuffer α cap) : RingBuffer α cap :=
  if 0 < r.size then
    { r with
      start := (r.start + 1) % cap
      size := r.size - 1
      start_lt := Nat.mod_lt _ (Nat.zero_lt_of_lt r.start_lt)
      size_le := Nat.le_trans (Nat.sub_le _ _) r.size_le }
  else r

/-- Take `n` elements away: the elements and the rest. -/
def popList : RingBuffer α cap → ℕ → List α × RingBuffer α cap
  | r, 0 => ([], r)
  | r, n + 1 => (r.cells r.start :: (r.pop.popList n).1, (r.pop.popList n).2)

@[simp] theorem length_contents (r : RingBuffer α cap) : r.contents.length = r.size := by
  simp [contents]

/-- A pushed item is the last one. -/
theorem contents_push {r : RingBuffer α cap} (a : α) (h : r.size < cap) :
    (r.push a).contents = r.contents ++ [a] := by
  rw [push, dif_pos h, contents, contents, range_succ, map_append, map_singleton]
  dsimp only
  rw [if_pos rfl]
  refine congrArg (· ++ [a]) (map_congr_left fun i hi => ?_)
  -- the new cell is not one of those in use
  have hi : i < r.size := mem_range.mp hi
  refine if_neg fun heq => ?_
  have hstart := r.start_lt
  have hwrap : ∀ j < cap, (r.start + j) % cap
      = if r.start + j < cap then r.start + j else r.start + j - cap := by
    intro j hj
    split
    · exact Nat.mod_eq_of_lt ‹_›
    · rw [Nat.mod_eq_sub_mod (by omega), Nat.mod_eq_of_lt (by omega)]
  rw [hwrap i (by omega), hwrap r.size h] at heq
  split at heq <;> split at heq <;> omega

@[simp] theorem size_push (r : RingBuffer α cap) (a : α) (h : r.size < cap) :
    (r.push a).size = r.size + 1 := by
  rw [push, dif_pos h]

/-- Pushed items come behind the others, in order. -/
theorem contents_pushList {r : RingBuffer α cap} {l : List α} (h : r.size + l.length ≤ cap) :
    (r.pushList l).contents = r.contents ++ l := by
  induction l generalizing r with
  | nil => exact (append_nil _).symm
  | cons a l ih =>
    rw [length_cons] at h
    have hroom : r.size < cap := by omega
    have hrest : (r.push a).size + l.length ≤ cap := by
      rw [size_push r a hroom]
      omega
    calc (r.pushList (a :: l)).contents = ((r.push a).pushList l).contents := rfl
      _ = r.contents ++ [a] ++ l := by rw [ih hrest, contents_push a hroom]
      _ = r.contents ++ a :: l := by simp

/-- The first item is popped. -/
theorem contents_pop {r : RingBuffer α cap} (h : 0 < r.size) :
    r.contents = r.cells r.start :: r.pop.contents := by
  obtain ⟨n, hn⟩ : ∃ n, r.size = n + 1 := ⟨r.size - 1, by omega⟩
  rw [pop, if_pos h, contents, contents]
  dsimp only
  rw [hn, Nat.add_sub_cancel, range_succ_eq_map, map_cons, map_map, Nat.add_zero,
    Nat.mod_eq_of_lt r.start_lt]
  refine congrArg (_ :: ·) (map_congr_left fun i _ => ?_)
  show r.cells ((r.start + (i + 1)) % cap) = r.cells (((r.start + 1) % cap + i) % cap)
  rw [Nat.mod_add_mod]
  congr 2
  omega

@[simp] theorem size_pop (r : RingBuffer α cap) (h : 0 < r.size) : r.pop.size = r.size - 1 := by
  rw [pop, if_pos h]

/-- The first `n` items are popped, in order. -/
theorem contents_popList {r : RingBuffer α cap} {n : ℕ} (h : n ≤ r.size) :
    r.contents = (r.popList n).1 ++ (r.popList n).2.contents ∧ (r.popList n).1.length = n := by
  induction n generalizing r with
  | zero => exact ⟨rfl, rfl⟩
  | succ n ih =>
    have hpos : 0 < r.size := by omega
    have hrest : n ≤ r.pop.size := by
      rw [size_pop r hpos]
      omega
    obtain ⟨heq, hlen⟩ := ih hrest
    refine ⟨?_, ?_⟩
    · rw [contents_pop hpos, heq]
      rfl
    · rw [popList, length_cons, hlen]

end RingBuffer
