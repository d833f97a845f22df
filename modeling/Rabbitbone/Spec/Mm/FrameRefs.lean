import Rabbitbone.Spec.Mm.FirstFit

/-!
# References to frames

A frame goes back with `memory_free_contiguous_pages`, which takes the only reference to it, or with
the `memory_unref_page` that drops the last one.

## Key results

- `Ledger.Sound.call`: a bit is set as long as there are references, and the count is their number.
- `refs_of_run`, `frame_bits_of_run`: so a frame that is handed out again has none, whatever was
  called before.
-/

namespace Rabbitbone.Spec.Mm

open Native.Sys Native.Mm List

/-- The memory, and for each frame how many references the callers got and did not drop. -/
structure Ledger where
  memory : Memory
  held : Nat → Nat

inductive FrameCall
  | alloc (pages limit : Nat)
  | free (base pages : Nat)
  | ref (page : Nat)
  | unref (page : Nat)

namespace Ledger

variable {k : KernelImage} {s s' : Ledger} {c : FrameCall} {f : Nat}

/-- One call; `none` is the panic. -/
def call (k : KernelImage) (s : Ledger) : FrameCall → Option Ledger
  | .alloc pages limit =>
    match s.memory.allocContiguousBelow pages limit with
    | none => some s
    | some (bit, m) =>
      some ⟨m, fun f => if bit ≤ f ∧ f < bit + pages then s.held f + 1 else s.held f⟩
  | .free base pages =>
    (s.memory.memoryFreeContiguousPages k base pages).map fun m =>
      ⟨m, fun f => if s.memory.freeIgnored k base pages = false ∧ base / pageSize ≤ f ∧
        f < base / pageSize + pages then s.held f - 1 else s.held f⟩
  | .ref page =>
    let r := s.memory.memoryRefPage k page
    some ⟨r.2, fun f => if r.1 ∧ f = page / pageSize then s.held f + 1 else s.held f⟩
  | .unref page =>
    let r := s.memory.memoryUnrefPage k page
    some ⟨r.2, fun f => if r.1 ∧ f = page / pageSize then s.held f - 1 else s.held f⟩

/-- The bits and the counts show the references. -/
structure Sound (s : Ledger) : Prop where
  tracked : s.memory.frameCount ≤ s.memory.frames.bitCount
  counted : ∀ f, (s.memory.frames.test f = true ↔ 0 < s.memory.refs f) ∧ s.held f = s.memory.refs f

private theorem Sound.refs_of_free (inv : Sound s) (h : s.memory.frames.test f = false) :
    s.memory.refs f = 0 := by
  have hbit := (inv.counted f).1
  rw [h] at hbit
  simpa using hbit

/-- Every call keeps the references right. -/
theorem Sound.call (inv : Sound s) (h : s.call k c = some s') : Sound s' := by
  cases c with
  | alloc pages limit =>
    rw [Ledger.call] at h
    split at h
    · cases h
      exact inv
    · rename_i bit m halloc
      cases h
      have htaken := taken_of_alloc halloc inv.tracked
      refine ⟨?_, fun f => ?_⟩
      · simpa only [htaken.tracked] using inv.tracked
      · obtain ⟨hbit, hheld⟩ := inv.counted f
        dsimp only
        rw [htaken.bits, htaken.refs, hbit, hheld]
        split
        · rename_i hin
          -- the frame had no reference before
          have hfree := (allocContiguousBelow_some halloc).1.2 f hin.1 hin.2
          simp [hin, inv.refs_of_free hfree.2]
        · rename_i hout
          simp [hout]
  | free base pages =>
    obtain ⟨m, hfree, rfl⟩ := Option.map_eq_some_iff.mp h
    rw [Memory.memoryFreeContiguousPages] at hfree
    split_ifs at hfree with hignored hall
    · cases hfree
      simpa [hignored] using inv
    · cases hfree
      simp only [all_eq_true, mem_range'_1, Bool.and_eq_true, decide_eq_true_eq] at hall
      refine ⟨?_, fun f => ?_⟩
      · simpa only [bitCount_putRun] using inv.tracked
      · obtain ⟨hbit, hheld⟩ := inv.counted f
        dsimp only
        rw [test_putRun, hheld]
        by_cases hin : base / pageSize ≤ f ∧ f < base / pageSize + pages
        · -- the reference that is dropped was the only one
          obtain ⟨htest, href⟩ := hall f hin
          simp_all [Bitmap.test]
        · rw [if_neg fun hc => hin ⟨hc.1, hc.2.1⟩, if_neg hin, if_neg fun hc => hin hc.2]
          exact ⟨hbit, rfl⟩
  | ref page =>
    cases h
    simp only [Memory.memoryRefPage]
    split_ifs with hbad hok
    · simpa using inv
    · refine ⟨inv.tracked, fun f => ?_⟩
      obtain ⟨hbit, hheld⟩ := inv.counted f
      dsimp only
      rw [hbit, hheld]
      by_cases hf : f = page / pageSize
      · subst hf
        simp [hok.2.2.1]
      · simp [hf]
    · simpa using inv
  | unref page =>
    cases h
    simp only [Memory.memoryUnrefPage]
    split
    · simpa using inv
    split
    · simpa using inv
    · rename_i hsome
      simp only [not_or, Bool.not_eq_false] at hsome
      refine ⟨?_, fun f => ?_⟩
      · dsimp only
        split
        · rw [bitCount_put]
          exact inv.tracked
        · exact inv.tracked
      · obtain ⟨hbit, hheld⟩ := inv.counted f
        dsimp only
        rw [hheld]
        by_cases hf : f = page / pageSize
        · subst hf
          have hlt : page / pageSize < s.memory.frames.bitCount := by
            have htracked := inv.tracked
            omega
          split
          · simp [test_put, *]
          · simp [hsome.2.1]
            omega
        · split <;> simp [test_put, hf, hbit]

/-- So does every sequence of calls. -/
theorem Sound.run {calls : List FrameCall} (inv : Sound s)
    (h : calls.foldlM (Ledger.call k) s = some s') : Sound s' := by
  induction calls generalizing s with
  | nil =>
    cases h
    exact inv
  | cons c calls ih =>
    rw [foldlM_cons] at h
    obtain ⟨s₁, hcall, hrest⟩ := Option.bind_eq_some_iff.mp h
    exact ih (inv.call hcall) hrest

/-- The ledger after the start. -/
def start (k : KernelImage) (info : BootInfo) : Ledger :=
  ⟨memoryInit k info, (memoryInit k info).refs⟩

private theorem sound_start (k : KernelImage) (info : BootInfo) : Sound (start k info) := by
  have hcount : (memoryInit k info).frames.bitCount = (memoryInit k info).frameCount := by
    simp only [memoryInit, markReserved, bitCount_markRange, bitCount_markBootModules]
    split <;> simp only [bitCount_markUsable, bitCount_markRange]
  refine ⟨Nat.le_of_eq hcount.symm, fun f => ⟨?_, rfl⟩⟩
  show _ ↔ 0 < if f < (memoryInit k info).frameCount ∧ (memoryInit k info).frames.test f then 1
    else 0
  rw [← hcount]
  split <;> simp_all [Bitmap.test, start]

private theorem Sound.refs_eq_one_iff (inv : Sound s) (f : Nat) :
    (s.memory.frames.test f && s.memory.refs f = 1) = true ↔ s.held f = 1 := by
  obtain ⟨hbit, hheld⟩ := inv.counted f
  rw [Bool.and_eq_true, hbit, hheld, decide_eq_true_eq]
  omega

/-- A call panics exactly if it frees a frame that does not have one reference. -/
theorem Sound.panics_iff (inv : Sound s) : s.call k c = none ↔ ∃ base pages, c = .free base pages ∧
    s.memory.freeIgnored k base pages = false ∧
      ∃ f, base / pageSize ≤ f ∧ f < base / pageSize + pages ∧ s.held f ≠ 1 := by
  cases c with
  | free base pages =>
    rw [Ledger.call, Option.map_eq_none_iff, Memory.memoryFreeContiguousPages]
    split_ifs with hignored hall
    · simp [hignored]
    · simp only [all_eq_true, mem_range'_1, inv.refs_eq_one_iff] at hall
      simpa [hignored] using hall
    · simp only [all_eq_true, mem_range'_1, inv.refs_eq_one_iff] at hall
      simpa [hignored] using hall
  | alloc pages limit =>
    rw [Ledger.call]
    split <;> simp
  | ref page => simp [Ledger.call]
  | unref page => simp [Ledger.call]

/-- A frame that is handed out has no holder. -/
theorem Sound.held_of_alloc {pages limit bit : Nat} {m : Memory} (inv : Sound s)
    (h : s.memory.allocContiguousBelow pages limit = some (bit, m)) (hle : bit ≤ f)
    (hlt : f < bit + pages) : s.held f = 0 := by
  rw [(inv.counted f).2]
  exact inv.refs_of_free ((allocContiguousBelow_some h).1.2 f hle hlt).2

/-- A frame is allocated, shared, and given back by both of its holders. -/
def shareCalls (f limit : Nat) : List FrameCall :=
  [.alloc 1 limit, .ref (f * pageSize), .unref (f * pageSize), .free (f * pageSize) 1]

/-- The first two calls take a reference each, and the others drop them. -/
theorem Sound.shareCalls {m : Memory} {limit : Nat} (inv : Sound s) (hpos : f ≠ 0)
    (halloc : s.memory.allocContiguousBelow 1 limit = some (f, m))
    (hout : Memory.rangeIntersectsReserved k (f * pageSize) pageSize = false) :
    ∃ s₁ s₂, ((shareCalls f limit).take 2).foldlM (Ledger.call k) s = some s₁ ∧ s₁.held f = 2 ∧
      (shareCalls f limit).foldlM (Ledger.call k) s = some s₂ ∧ s₂.held f = 0 := by
  have hfree := (allocContiguousBelow_some halloc).1.2 f (Nat.le_refl f) (Nat.lt_succ_self f)
  have htaken := taken_of_alloc halloc inv.tracked
  have hheld : s.held f = 0 := inv.held_of_alloc halloc (Nat.le_refl f) (Nat.lt_succ_self f)
  have hbit : m.frames.test f = true := (htaken.bits f).mpr (.inr (by omega))
  have hrefs : m.refs f = 1 := (htaken.refs f).trans (if_pos (by omega))
  have hcount : f < m.frameCount := htaken.tracked.2 ▸ hfree.1
  have hdiv : f * pageSize / pageSize = f := Nat.mul_div_cancel _ (by decide)
  have haddr : f * pageSize ≠ 0 ∧ f * pageSize % pageSize = 0 :=
    ⟨Nat.mul_ne_zero hpos (by decide), Nat.mul_mod_left ..⟩
  have hroom : ¬m.frameCount ≤ f ∧ ¬m.frameCount - f = 0 ∧ pageSize < 2 ^ 64 :=
    ⟨by omega, by omega, by decide⟩
  simp [Ledger.shareCalls, Ledger.call, halloc, Memory.memoryRefPage, Memory.memoryUnrefPage,
    Memory.memoryFreeContiguousPages, Memory.freeIgnored, hdiv, haddr, hout, hbit, hrefs, hcount,
    hroom, hheld]
  exact ⟨⟨_, if_neg (Nat.not_le.mpr hroom.2.2)⟩, hroom.2.2⟩

end Ledger

/-- After every run of calls that does not panic the count of a frame is the number of references
that were not dropped, and its bit is set if there are any; a frame that is handed out next has
none; and the next call panics exactly if it frees a frame that does not have one. -/
theorem refs_of_run {k : KernelImage} {info : BootInfo} {calls : List FrameCall} {s : Ledger}
    (h : calls.foldlM (Ledger.call k) (.start k info) = some s) :
    (∀ f, s.memory.refs f = s.held f ∧ (s.memory.frames.test f = true ↔ 0 < s.held f)) ∧
      (∀ pages limit bit m, s.memory.allocContiguousBelow pages limit = some (bit, m) →
        ∀ f, bit ≤ f → f < bit + pages → s.held f = 0) ∧
      ∀ c, s.call k c = none ↔ ∃ base pages, c = .free base pages ∧
        s.memory.freeIgnored k base pages = false ∧
          ∃ f, base / pageSize ≤ f ∧ f < base / pageSize + pages ∧ s.held f ≠ 1 := by
  have inv := (Ledger.sound_start k info).run h
  refine ⟨fun f => ?_, fun _ _ _ _ halloc f hle hlt => inv.held_of_alloc halloc hle hlt,
    fun c => inv.panics_iff⟩
  obtain ⟨hbit, hheld⟩ := inv.counted f
  exact ⟨hheld.symm, hheld ▸ hbit⟩

/-- The bit of a tracked frame is set exactly if its count is positive, and a frame that is handed
out next has no reference that was not dropped. -/
theorem frame_bits_of_run {k : KernelImage} {info : BootInfo} {calls : List FrameCall} {s : Ledger}
    (h : calls.foldlM (Ledger.call k) (.start k info) = some s) :
    (∀ f < s.memory.frameCount, s.memory.frames.test f = true ↔ 0 < s.memory.refs f) ∧
      ∀ pages limit bit m, s.memory.allocContiguousBelow pages limit = some (bit, m) →
        ∀ f, bit ≤ f → f < bit + pages → s.held f = 0 := by
  have inv := (Ledger.sound_start k info).run h
  exact ⟨fun f _ => (inv.counted f).1, fun pages limit bit m halloc f hle hlt =>
    inv.held_of_alloc halloc hle hlt⟩

/-! ### A frame with two holders -/

/-- The first frame that is handed out is the one at 2 MiB. -/
theorem alloc_start : ∃ m,
    (memoryInit smallKernel unalignedModule).allocContiguousBelow 1 0x400000 = some (0x200, m) := by
  have hrun : FreeRun (memoryInit smallKernel unalignedModule) 1 0x400000 0x200 := by
    refine ⟨by decide, fun f hle hlt => ?_⟩
    rw [isFree_memoryInit]
    simp [Usable, KernelOwned, ModuleOwned, unalignedModule, smallKernel, bootinfoValidate, rangeOk,
      Inside, e820Usable, frameRefcount, maxTrackedFrames, KernelImage.start, pageSize]
    omega
  cases halloc : (memoryInit smallKernel unalignedModule).allocContiguousBelow 1 0x400000 with
  | none => exact absurd hrun (allocContiguousBelow_none halloc (by decide))
  | some found =>
    obtain ⟨bit, m⟩ := found
    obtain ⟨hfree, hleast, -⟩ := allocContiguousBelow_some halloc
    -- the frames below are reserved
    have howned := ((isFree_memoryInit _ _ bit).mp
      (hfree.2 bit (Nat.le_refl _) (Nat.lt_succ_self _))).2.2.1
    obtain rfl : bit = 0x200 := by
      by_contra hne
      rcases Nat.lt_or_gt_of_ne hne with hlt | hgt
      · refine howned (.inl ?_)
        simp only [Inside, pageSize]
        omega
      · exact hleast 0x200 hgt hrun
    exact ⟨m, rfl⟩

/-- The frame at 2 MiB. -/
theorem shareCalls_start : ∃ s₁ s₂,
    ((Ledger.shareCalls 0x200 0x400000).take 2).foldlM (Ledger.call smallKernel)
      (.start smallKernel unalignedModule) = some s₁ ∧ s₁.held 0x200 = 2 ∧
    (Ledger.shareCalls 0x200 0x400000).foldlM (Ledger.call smallKernel)
      (.start smallKernel unalignedModule) = some s₂ ∧ s₂.held 0x200 = 0 := by
  obtain ⟨m, halloc⟩ := alloc_start
  exact (Ledger.sound_start _ _).shareCalls (by decide) halloc (by decide)

/-- The count is 2 while the frame is shared, and 0 in the end. -/
theorem refs_of_run_shared : ∃ s₁ s₂,
    ((Ledger.shareCalls 0x200 0x400000).take 2).foldlM (Ledger.call smallKernel)
      (.start smallKernel unalignedModule) = some s₁ ∧ s₁.memory.refs 0x200 = 2 ∧
    (Ledger.shareCalls 0x200 0x400000).foldlM (Ledger.call smallKernel)
      (.start smallKernel unalignedModule) = some s₂ ∧ s₂.memory.refs 0x200 = 0 := by
  obtain ⟨s₁, s₂, hrun₁, hheld₁, hrun₂, hheld₂⟩ := shareCalls_start
  exact ⟨s₁, s₂, hrun₁, ((refs_of_run hrun₁).1 _).1.trans hheld₁, hrun₂,
    ((refs_of_run hrun₂).1 _).1.trans hheld₂⟩

/-- The frame can only be handed out once more when both references are dropped. -/
theorem frame_bits_of_run_shared : ∃ s₁ s₂,
    ((Ledger.shareCalls 0x200 0x400000).take 2).foldlM (Ledger.call smallKernel)
      (.start smallKernel unalignedModule) = some s₁ ∧
    (∀ limit bit m, s₁.memory.allocContiguousBelow 1 limit = some (bit, m) → bit ≠ 0x200) ∧
    (Ledger.shareCalls 0x200 0x400000).foldlM (Ledger.call smallKernel)
      (.start smallKernel unalignedModule) = some s₂ ∧
    ∀ f < s₂.memory.frameCount, s₂.memory.frames.test f = true ↔ 0 < s₂.memory.refs f := by
  obtain ⟨s₁, s₂, hrun₁, hheld₁, hrun₂, -⟩ := shareCalls_start
  refine ⟨s₁, s₂, hrun₁, fun limit bit m halloc hbit => ?_, hrun₂, (frame_bits_of_run hrun₂).1⟩
  have hzero := (frame_bits_of_run hrun₁).2 1 limit bit m halloc bit (Nat.le_refl _) (by omega)
  rw [hbit, hheld₁] at hzero
  cases hzero

end Rabbitbone.Spec.Mm
