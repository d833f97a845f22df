import Rabbitbone.Spec.Mm.MemoryInit

/-!
# First fit

The search of `memory_alloc_contiguous_pages_below` goes on behind a frame that is taken, and misses
no run by that: every run that it skips contains the frame.  The run at frame 0 is the one that it
cannot return, since its address is the null pointer.

## Key results

- `findRun_some`, `findRun_none`: the search finds the lowest run, if there is one.
- `firstFit_iff`: the function is a first-fit search exactly if frame 0 does not start a run.
-/

namespace Rabbitbone.Spec.Mm

open Native.Sys Native.Mm List

variable {bm : Bitmap} {m m' : Memory} {pages limit maxBit bit fuel start b : Nat}

/-! ### The search -/

/-- The bits of a run below `maxBit` are clear. -/
def ClearRun (bm : Bitmap) (pages maxBit bit : Nat) : Prop :=
  bit + pages ≤ maxBit ∧ ∀ f, bit ≤ f → f < bit + pages → bm.test f = false

/-- The runs that the search skips contain the bit that is set. -/
theorem not_clearRun_of_find {j : Nat}
    (h : (range pages).find? (fun j => bm.test (start + j)) = some j) (hle : start ≤ b)
    (hlt : b < start + j + 1) : ¬ClearRun bm pages maxBit b := by
  intro hrun
  have hj := mem_range.mp (mem_of_find?_eq_some h)
  have hclear := hrun.2 (start + j) (by omega) (by omega)
  rw [find?_some h] at hclear
  cases hclear

private theorem findRun_some (h : Memory.findRun bm pages maxBit fuel start = some bit) :
    start ≤ bit ∧ ClearRun bm pages maxBit bit ∧
      ∀ b, start ≤ b → b < bit → ¬ClearRun bm pages maxBit b := by
  induction fuel generalizing start with
  | zero => cases h
  | succ fuel ih =>
    rw [Memory.findRun] at h
    split at h
    · rename_i hfits
      cases hfind : (range pages).find? fun j => bm.test (start + j) with
      | some j =>
        rw [hfind] at h
        obtain ⟨hle, hrun, hleast⟩ := ih h
        refine ⟨by omega, hrun, fun b hsb hlt => ?_⟩
        by_cases hb : b < start + j + 1
        · exact not_clearRun_of_find hfind hsb hb
        · exact hleast b (by omega) hlt
      | none =>
        rw [hfind] at h
        obtain rfl := Option.some.inj h
        refine ⟨Nat.le_refl _, ⟨hfits, fun f hle hlt => ?_⟩, fun b hsb hlt => absurd hsb (by omega)⟩
        have hclear := find?_eq_none.mp hfind (f - start) (mem_range.mpr (by omega))
        rw [Nat.add_sub_cancel' hle] at hclear
        simpa using hclear
    · cases h

private theorem findRun_none (h : Memory.findRun bm pages maxBit fuel start = none)
    (hfuel : maxBit < start + fuel) (hb : start ≤ b) : ¬ClearRun bm pages maxBit b := by
  induction fuel generalizing start with
  | zero =>
    intro hrun
    have := hrun.1
    omega
  | succ fuel ih =>
    rw [Memory.findRun] at h
    split at h
    · cases hfind : (range pages).find? fun j => bm.test (start + j) with
      | some j =>
        rw [hfind] at h
        by_cases hlt : b < start + j + 1
        · exact not_clearRun_of_find hfind hb hlt
        · exact ih h (by omega) (by omega)
      | none =>
        rw [hfind] at h
        cases h
    · rename_i hfits
      intro hrun
      have := hrun.1
      omega

/-! ### The allocator -/

/-- The frames of a run that ends at or below a limit are free. -/
def FreeRun (m : Memory) (pages limit bit : Nat) : Prop :=
  (bit + pages) * pageSize ≤ limit ∧ ∀ f, bit ≤ f → f < bit + pages → IsFree m f

private theorem freeRun_iff (hpages : pages ≠ 0) : FreeRun m pages limit bit ↔
    ClearRun m.frames pages (min (limit / pageSize) m.frameCount) bit := by
  rw [FreeRun, ClearRun, Nat.le_min, Nat.le_div_iff_mul_le (by decide), and_assoc]
  refine and_congr_right fun _ =>
    ⟨fun h => ⟨?_, fun f hle hlt => (h f hle hlt).2⟩, fun h f hle hlt => ?_⟩
  · have hlast := (h (bit + pages - 1) (by omega) (by omega)).1
    omega
  · exact ⟨by omega, h.2 f hle hlt⟩

/-- What is handed out is the first free run. -/
theorem allocContiguousBelow_some (h : m.allocContiguousBelow pages limit = some (bit, m')) :
    FreeRun m pages limit bit ∧ (∀ b < bit, ¬FreeRun m pages limit b) ∧
      m' = { m with
        frames := m.frames.putRun true bit pages
        refs := fun f => if bit ≤ f ∧ f < bit + pages then 1 else m.refs f } := by
  rw [Memory.allocContiguousBelow] at h
  split at h
  · cases h
  rename_i hcond
  have hpages : pages ≠ 0 := fun h0 => hcond (.inl h0)
  obtain ⟨bit', hfind, heq⟩ := Option.map_eq_some_iff.mp h
  cases heq
  obtain ⟨-, hrun, hleast⟩ := findRun_some hfind
  exact ⟨(freeRun_iff hpages).mpr hrun, fun b hb hfree =>
    hleast b (Nat.zero_le b) hb ((freeRun_iff hpages).mp hfree), rfl⟩

/-- A failure means that there is no free run. -/
theorem allocContiguousBelow_none (h : m.allocContiguousBelow pages limit = none)
    (hpages : pages ≠ 0) : ¬FreeRun m pages limit b := by
  rw [Memory.allocContiguousBelow] at h
  split at h
  · rename_i hcond
    intro hrun
    have hle := Nat.le_trans (Nat.le_mul_of_pos_left pageSize (by omega)) hrun.1
    exact hcond.elim hpages fun hlt => absurd hle (by omega)
  · rw [freeRun_iff hpages]
    exact findRun_none (Option.map_eq_none_iff.mp h) (by omega) (Nat.zero_le b)

/-- The bits and the counts of a run are set, and nothing else. -/
structure Taken (m m' : Memory) (pages bit : Nat) : Prop where
  bits : ∀ f, m'.frames.test f = true ↔ m.frames.test f = true ∨ bit ≤ f ∧ f < bit + pages
  refs : ∀ f, m'.refs f = if bit ≤ f ∧ f < bit + pages then 1 else m.refs f
  tracked : m'.frames.bitCount = m.frames.bitCount ∧ m'.frameCount = m.frameCount

/-- A run that the allocator takes was free. -/
theorem taken_of_alloc (h : m.allocContiguousBelow pages limit = some (bit, m'))
    (htracked : m.frameCount ≤ m.frames.bitCount) : Taken m m' pages bit := by
  obtain ⟨hrun, -, rfl⟩ := allocContiguousBelow_some h
  refine ⟨fun f => ?_, fun f => rfl, bitCount_putRun .., rfl⟩
  rw [test_putRun]
  by_cases hin : bit ≤ f ∧ f < bit + pages
  · have hlt := (hrun.2 f hin.1 hin.2).1
    simp [hin, show f < m.frames.bitCount by omega]
  · rw [if_neg fun hc => hin ⟨hc.1, hc.2.1⟩, or_iff_left hin]

/-- What a first-fit search returns: the lowest run, which it takes, or null if there is none. -/
structure FirstFit (m : Memory) (pages limit : Nat) (out : Nat × Memory) : Prop where
  null_iff : out.1 = 0 ↔ ∀ b, ¬FreeRun m pages limit b
  null : out.1 = 0 → out.2 = m
  found : out.1 ≠ 0 → ∃ bit, out.1 = bit * pageSize ∧ FreeRun m pages limit bit ∧
    (∀ b < bit, ¬FreeRun m pages limit b) ∧ Taken m out.2 pages bit

/-- `memory_alloc_contiguous_pages_below` is a first-fit search exactly if frame 0 does not start a
run.  An empty run starts everywhere. -/
theorem firstFit_iff (htracked : m.frameCount ≤ m.frames.bitCount) (pages limit : Nat) :
    FirstFit m pages limit (m.memoryAllocContiguousPagesBelow pages limit) ↔
      ¬FreeRun m pages limit 0 := by
  constructor
  · intro h hzero
    by_cases hnull : (m.memoryAllocContiguousPagesBelow pages limit).1 = 0
    · exact h.null_iff.mp hnull 0 hzero
    obtain ⟨bit, heq, -, hleast, -⟩ := h.found hnull
    refine hleast 0 (Nat.pos_of_ne_zero fun h0 => hnull ?_) hzero
    rw [heq, h0, Nat.zero_mul]
  · intro hzero
    have hpages : pages ≠ 0 := by
      rintro rfl
      exact hzero ⟨by simp, fun f _ hlt => absurd hlt (by omega)⟩
    rw [Memory.memoryAllocContiguousPagesBelow]
    cases halloc : m.allocContiguousBelow pages limit with
    | none =>
      exact ⟨iff_of_true rfl fun b => allocContiguousBelow_none halloc hpages, fun _ => rfl,
        fun h => absurd rfl h⟩
    | some found =>
      obtain ⟨bit, m'⟩ := found
      obtain ⟨hrun, hleast, -⟩ := allocContiguousBelow_some halloc
      have hne : bit * pageSize ≠ 0 := by
        refine Nat.mul_ne_zero (fun h0 => hzero ?_) (by decide)
        rwa [h0] at hrun
      exact ⟨iff_of_false hne fun h => h bit hrun, fun h => absurd h hne, fun _ =>
        ⟨bit, rfl, hrun, hleast, taken_of_alloc halloc htracked⟩⟩

/-- Four frames, of which those in the list are taken. -/
def fourFrames (taken : List Nat) : Memory where
  frames := ⟨4, fun f => f ∈ taken⟩
  frameCount := 4
  totalUsable := 0
  refs := fun f => if f ∈ taken then 1 else 0

/-- Behind frame 2 there is no room for two frames; without it the run at frame 1 is taken. -/
theorem firstFit_fourFrames :
    FirstFit (fourFrames [0, 2]) 2 (4 * pageSize)
      ((fourFrames [0, 2]).memoryAllocContiguousPagesBelow 2 (4 * pageSize)) ∧
    FirstFit (fourFrames [0]) 2 (4 * pageSize)
      ((fourFrames [0]).memoryAllocContiguousPagesBelow 2 (4 * pageSize)) ∧
    ((fourFrames [0]).memoryAllocContiguousPagesBelow 2 (4 * pageSize)).1 = pageSize :=
  ⟨(firstFit_iff (by decide) _ _).mpr fun h => absurd (h.2 0 (by decide) (by decide)).2 (by decide),
    (firstFit_iff (by decide) _ _).mpr fun h => absurd
      (h.2 0 (by decide) (by decide)).2 (by decide),
    by decide⟩

/-- A free frame 0 is taken and returned as the null pointer. -/
theorem frame_zero_is_null : ¬FirstFit (fourFrames []) 1 (4 * pageSize)
      ((fourFrames []).memoryAllocContiguousPagesBelow 1 (4 * pageSize)) := by
  intro h
  exact h.null_iff.mp (by decide) 1 ⟨by decide, fun f _ hlt => ⟨by simp only [fourFrames]; omega, by
    simp [fourFrames, Bitmap.test]⟩⟩

end Rabbitbone.Spec.Mm
