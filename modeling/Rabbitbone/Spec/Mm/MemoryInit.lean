import Mathlib.Data.List.Basic
import Rabbitbone.Native.Mm.Memory

/-!
# The frames that are free after the start

`mark_range` rounds its range to the frames that lie wholly inside, whether it frees or reserves
them.  So a frame is free after `memory_init` exactly if it lies wholly in a usable range and wholly
in none of those that are reserved.  A frame that a boot module or an entry of another type only
reaches into stays free.
-/

namespace Rabbitbone.Spec.Mm

open Native.Sys Native.Mm List

variable {length f base : Nat} {info : BootInfo}

/-- The frame lies wholly in the range of `length` bytes from `base` on. -/
def Inside (f base length : Nat) : Prop := base ≤ pageSize * f ∧ pageSize * (f + 1) ≤ base + length

/-- The frame and the range have a byte in common. -/
def Touches (f base length : Nat) : Prop :=
  0 < length ∧ base < pageSize * (f + 1) ∧ pageSize * f < base + length

instance (f base length : Nat) : Decidable (Inside f base length) :=
  inferInstanceAs (Decidable (_ ∧ _))

/-- A frame that a range of whole frames touches lies in it. -/
theorem Touches.inside (h : Touches f base length) (hbase : base % pageSize = 0)
    (hstop : (base + length) % pageSize = 0) : Inside f base length := by
  simp only [Touches, Inside, pageSize] at *
  omega

/-! ### Bitmaps -/

theorem bitCount_put (bm : Bitmap) (bit : Nat) (value : Bool) :
    (bm.put bit value).bitCount = bm.bitCount := by
  unfold Bitmap.put
  split <;> rfl

theorem test_put (bm : Bitmap) (bit i : Nat) (value : Bool) :
    (bm.put bit value).test i = if i = bit ∧ i < bm.bitCount then value else bm.test i := by
  unfold Bitmap.put
  split
  · rename_i hbit
    by_cases hi : i = bit
    · subst hi
      simp [Bitmap.test, hbit]
    · simp [Bitmap.test, hi]
  · rename_i hbit
    rw [if_neg (by omega)]

theorem bitCount_putRun (bm : Bitmap) (value : Bool) (start count : Nat) :
    (bm.putRun value start count).bitCount = bm.bitCount := by
  unfold Bitmap.putRun
  induction count generalizing bm start with
  | zero => rfl
  | succ count ih => rw [range'_succ, foldl_cons, ih, bitCount_put]

/-- A run of bits is set or cleared, as far as the bitmap goes. -/
theorem test_putRun (bm : Bitmap) (value : Bool) (start count i : Nat) :
    (bm.putRun value start count).test i =
      if start ≤ i ∧ i < start + count ∧ i < bm.bitCount then value else bm.test i := by
  unfold Bitmap.putRun
  induction count generalizing bm start with
  | zero => rw [if_neg (by omega)]; rfl
  | succ count ih =>
    rw [range'_succ, foldl_cons, ih, bitCount_put, test_put]
    by_cases hi : i = start ∧ i < bm.bitCount
    · rw [if_neg (by omega), if_pos hi, if_pos (by omega)]
    by_cases hrest : start + 1 ≤ i ∧ i < start + 1 + count ∧ i < bm.bitCount
    · rw [if_pos hrest, if_pos (by omega)]
    · rw [if_neg hrest, if_neg hi, if_neg (by omega)]

theorem bitCount_markRange (bm : Bitmap) (base length : Nat) (free : Bool) :
    (markRange bm base length free).bitCount = bm.bitCount := by
  unfold markRange
  split
  · rfl
  split
  · rfl
  dsimp only
  split
  · rfl
  · exact bitCount_putRun _ _ _ _

/-- What `mark_range` marks: the frames that lie wholly in the range. -/
theorem test_markRange (bm : Bitmap) (hend : base + length < 2 ^ 64) (free : Bool) (f : Nat) :
    (markRange bm base length free).test f =
      if Inside f base length ∧ f < bm.bitCount then !free else bm.test f := by
  unfold markRange
  split
  · rw [if_neg]
    simp only [Inside, pageSize]
    omega
  by_cases hround : base + (pageSize - 1) < 2 ^ 64
  · have hup : alignUpPage base =
        some ((base + (pageSize - 1)) / pageSize * pageSize) := if_pos hround
    rw [hup]
    dsimp only
    split
    · rw [if_neg]
      simp only [Inside, pageSize] at *
      omega
    rw [test_putRun]
    refine if_congr ?_ rfl rfl
    simp only [Inside, pageSize] at *
    omega
  · -- The start is rounded up past the end of the address space.
    have hup : alignUpPage base = none := if_neg hround
    rw [hup, if_neg]
    simp only [Inside, pageSize] at *
    omega

/-- The frames that a reserved range leaves clear. -/
theorem test_reserve (bm : Bitmap) (hend : base + length < 2 ^ 64) (hf : f < bm.bitCount) :
    (markRange bm base length false).test f = false ↔
      bm.test f = false ∧ ¬Inside f base length := by
  rw [test_markRange _ hend]
  by_cases hin : Inside f base length <;> simp [hin, hf]

/-! ### The frames after the start -/

/-- The ranges that are marked as free: the usable entries, or the memory up to 32 MiB if there is
no valid boot information. -/
def Usable (info : BootInfo) (f : Nat) : Prop :=
  if bootinfoValidate info then ∃ e ∈ info.e820, e.type = e820Usable ∧ Inside f e.base e.length
  else Inside f 0x200000 (30 * 1024 * 1024)

/-- The ranges that are reserved whatever the boot information says. -/
def KernelOwned (k : KernelImage) (f : Nat) : Prop :=
  Inside f 0 0x200000 ∨ Inside f k.start (k.stop - k.start) ∨
    Inside f frameRefcount.1 frameRefcount.2

/-- The frame lies wholly in a module of valid boot information. -/
def ModuleOwned (info : BootInfo) (f : Nat) : Prop :=
  bootinfoValidate info ∧ ∃ m ∈ info.modules, Inside f m.base m.size

/-- The frame is free for allocation. -/
def IsFree (m : Memory) (f : Nat) : Prop := f < m.frameCount ∧ m.frames.test f = false

theorem bitCount_markUsable (bm : Bitmap) (entries : List E820Entry) :
    (markUsable bm entries).bitCount = bm.bitCount := by
  unfold markUsable
  induction entries generalizing bm with
  | nil => rfl
  | cons e entries ih =>
    rw [foldl_cons, ih]
    split
    · exact bitCount_markRange _ _ _ _
    · rfl

/-- The frames that the usable entries clear. -/
theorem test_markUsable {entries : List E820Entry}
    (hend : ∀ e ∈ entries, e.length = 0 ∨ e.base + e.length < 2 ^ 64) (bm : Bitmap)
    (hf : f < bm.bitCount) :
    (markUsable bm entries).test f = false ↔
      bm.test f = false ∨ ∃ e ∈ entries, e.type = e820Usable ∧ Inside f e.base e.length := by
  unfold markUsable
  induction entries generalizing bm with
  | nil => simp
  | cons e entries ih =>
    have hrest : ∀ e ∈ entries, e.length = 0 ∨ e.base + e.length < 2 ^ 64 :=
      fun e' he' => hend e' (mem_cons_of_mem _ he')
    rw [foldl_cons]
    by_cases htype : e.type = e820Usable
    · rw [if_pos htype, ih hrest _ (by rw [bitCount_markRange]; exact hf)]
      have hmark : (markRange bm e.base e.length true).test f = false ↔
          bm.test f = false ∨ Inside f e.base e.length := by
        rcases hend e mem_cons_self with hzero | hlt
        · have hnot : ¬Inside f e.base e.length := by
            simp only [Inside, pageSize]
            omega
          rw [markRange, if_pos (.inl hzero)]
          simp [hnot]
        · rw [test_markRange _ hlt]
          by_cases hin : Inside f e.base e.length <;> simp [hin, hf]
      rw [hmark]
      simp only [exists_mem_cons_iff, htype, true_and, or_assoc]
    · rw [if_neg htype, ih hrest _ hf]
      simp only [exists_mem_cons_iff, htype, false_and, false_or]

private theorem bitCount_markModules (bm : Bitmap) (modules : List BootModule) :
    (markModules bm modules).bitCount = bm.bitCount := by
  unfold markModules
  induction modules generalizing bm with
  | nil => rfl
  | cons m modules ih =>
    rw [foldl_cons, ih]
    split
    · exact bitCount_markRange _ _ _ _
    · rfl

/-- The frames that the modules leave clear. -/
theorem test_markModules {modules : List BootModule} (hok : ∀ m ∈ modules, rangeOk m.base m.size)
    (bm : Bitmap) (hf : f < bm.bitCount) : (markModules bm modules).test f = false ↔
      bm.test f = false ∧ ∀ m ∈ modules, ¬Inside f m.base m.size := by
  unfold markModules
  induction modules generalizing bm with
  | nil => simp
  | cons m modules ih =>
    have hrest : ∀ m ∈ modules, rangeOk m.base m.size :=
      fun m' hm' => hok m' (mem_cons_of_mem _ hm')
    have hm := hok m mem_cons_self
    simp only [rangeOk, Bool.or_eq_true, Bool.and_eq_true, decide_eq_true_eq, ne_eq] at hm
    rw [foldl_cons]
    by_cases hsize : m.size = 0
    · have hnot : ¬Inside f m.base m.size := by
        simp only [Inside, pageSize]
        omega
      rw [if_neg (by omega), ih hrest _ hf]
      simp [hnot]
    · rw [if_pos (by omega), ih hrest _ (by rw [bitCount_markRange]; exact hf),
        test_markRange _ (by omega)]
      by_cases hin : Inside f m.base m.size <;> simp [hin, hf]

/-- The addresses that the bitmap is made for. -/
theorem le_maxAddr {entries : List E820Entry} {e : E820Entry} (he : e ∈ entries)
    (hend : e.base + e.length < 2 ^ 64) (hlength : e.length ≠ 0) :
    e.base + e.length ≤ maxAddr entries := by
  have hmono : ∀ (entries : List E820Entry) (top : Nat), top ≤ entries.foldl
      (fun top e => if e.length = 0 then top else max top (saturatingAdd e.base e.length)) top := by
    intro entries
    induction entries with
    | nil => exact fun top => Nat.le_refl top
    | cons e entries ih =>
      intro top
      refine Nat.le_trans ?_ (ih _)
      dsimp only
      split <;> omega
  obtain ⟨before, after, rfl⟩ := append_of_mem he
  unfold maxAddr
  rw [foldl_append, foldl_cons, if_neg hlength]
  refine Nat.le_trans ?_ (hmono _ _)
  simp only [saturatingAdd]
  omega

private theorem valid_e820 (h : bootinfoValidate info) :
    ∀ e ∈ info.e820, e.length = 0 ∨ e.base + e.length < 2 ^ 64 := by
  simp only [bootinfoValidate, Bool.and_eq_true] at h
  intro e he
  simpa using all_eq_true.mp h.1.1.2 e he

private theorem valid_modules (h : bootinfoValidate info) :
    ∀ m ∈ info.modules, rangeOk m.base m.size := by
  simp only [bootinfoValidate, Bool.and_eq_true] at h
  intro m hm
  have hall := all_eq_true.mp h.2 m hm
  rw [Bool.and_eq_true] at hall
  exact hall.1

private theorem valid_modulesAddr (h : bootinfoValidate info) (hne : info.modules ≠ []) :
    info.modulesAddr ≠ 0 := by
  simp only [bootinfoValidate, Bool.and_eq_true] at h
  have hpos := length_pos_iff.mpr hne
  have hok := h.1.2
  simp only [rangeOk, Bool.or_eq_true, Bool.and_eq_true, decide_eq_true_eq, ne_eq] at hok
  omega

theorem bitCount_markBootModules (info : BootInfo) (bm : Bitmap) :
    (markBootModules info bm).bitCount = bm.bitCount := by
  unfold markBootModules
  split
  · exact bitCount_markModules _ _
  · rfl

private theorem test_markBootModules (info : BootInfo) (bm : Bitmap) (hf : f < bm.bitCount) :
    (markBootModules info bm).test f = false ↔ bm.test f = false ∧ ¬ModuleOwned info f := by
  unfold markBootModules ModuleOwned
  by_cases hvalid : bootinfoValidate info
  · by_cases hnone : info.modules = []
    · simp [hnone, markModules]
    rw [if_pos (by simp [hvalid, valid_modulesAddr hvalid hnone]),
      test_markModules (valid_modules hvalid) _ hf]
    simp only [hvalid, true_and, not_exists, not_and]
  · simp [hvalid]

/-- The frames that the reserved ranges leave clear. -/
theorem test_markReserved (k : KernelImage) (info : BootInfo) (bm : Bitmap) (hf : f < bm.bitCount) :
    (markReserved k info bm).test f = false ↔
      bm.test f = false ∧ ¬KernelOwned k f ∧ ¬ModuleOwned info f := by
  have hstop := k.stop_lt
  have hkernel : k.start + (k.stop - k.start) < 2 ^ 64 := by
    simp only [KernelImage.start]
    omega
  -- The bitmap lies in the low 2 MiB.
  have hbitmap : Inside f frameBitmap.1 frameBitmap.2 → Inside f 0 0x200000 := by
    simp only [Inside, frameBitmap, maxTrackedFrames, pageSize]
    omega
  unfold markReserved KernelOwned
  rw [test_reserve _ (by decide)
    (by simpa only [bitCount_markRange, bitCount_markBootModules] using hf),
    test_reserve _ (by decide)
      (by simpa only [bitCount_markRange, bitCount_markBootModules] using hf),
    test_markBootModules _ _ (by simpa only [bitCount_markRange] using hf),
    test_reserve _ hkernel (by simpa only [bitCount_markRange] using hf),
    test_reserve _ (by decide) hf, not_or, not_or]
  constructor
  · rintro ⟨⟨⟨⟨⟨hclear, hlow⟩, himage⟩, hmodule⟩, -⟩, hrefs⟩
    exact ⟨hclear, ⟨hlow, himage, hrefs⟩, hmodule⟩
  · rintro ⟨hclear, ⟨hlow, himage, hrefs⟩, hmodule⟩
    exact ⟨⟨⟨⟨⟨hclear, hlow⟩, himage⟩, hmodule⟩, mt hbitmap hlow⟩, hrefs⟩

/-- The frames that are free after the start. -/
theorem isFree_memoryInit (k : KernelImage) (info : BootInfo) (f : Nat) :
    IsFree (memoryInit k info) f ↔
      f < maxTrackedFrames ∧ Usable info f ∧ ¬KernelOwned k f ∧ ¬ModuleOwned info f := by
  unfold IsFree Usable
  simp only [memoryInit]
  by_cases hvalid : bootinfoValidate info
  · simp only [hvalid, if_true]
    have htest : ∀ n, f < n → ((markUsable ⟨n, fun _ => true⟩ info.e820).test f = false ↔
        ∃ e ∈ info.e820, e.type = e820Usable ∧ Inside f e.base e.length) := by
      intro n hn
      rw [test_markUsable (valid_e820 hvalid) _ hn]
      simp [Bitmap.test, hn]
    constructor
    · rintro ⟨hf, hclear⟩
      rw [test_markReserved _ _ _ (by rw [bitCount_markUsable]; exact hf), htest _ hf] at hclear
      exact ⟨by omega, hclear⟩
    · rintro ⟨hf, ⟨e, he, htype, hin⟩, howned⟩
      -- The bitmap has a bit for each frame of a usable entry.
      have hcount : f < min (max (maxAddr info.e820) (32 * 1024 * 1024) / pageSize)
          maxTrackedFrames := by
        simp only [Inside, pageSize] at *
        rcases valid_e820 hvalid e he with hzero | hend
        · omega
        · have htop := le_maxAddr he hend (by omega)
          omega
      rw [test_markReserved _ _ _ (by rw [bitCount_markUsable]; exact hcount), htest _ hcount]
      exact ⟨hcount, ⟨e, he, htype, hin⟩, howned⟩
  · simp only [hvalid, Bool.false_eq_true, if_false]
    have htest : ∀ n, f < n →
        ((markRange ⟨n, fun _ => true⟩ 0x200000 (max 0 (32 * 1024 * 1024) - 0x200000) true).test f =
          false ↔ Inside f 0x200000 (30 * 1024 * 1024)) := by
      intro n hn
      rw [test_markRange _ (by decide)]
      simp [Bitmap.test, hn]
    constructor
    · rintro ⟨hf, hclear⟩
      rw [test_markReserved _ _ _ (by rw [bitCount_markRange]; exact hf), htest _ hf] at hclear
      exact ⟨by omega, hclear⟩
    · rintro ⟨hf, hin, howned⟩
      have hcount : f < min (max 0 (32 * 1024 * 1024) / pageSize) maxTrackedFrames := by
        simp only [Inside, pageSize] at *
        omega
      rw [test_markReserved _ _ _ (by rw [bitCount_markRange]; exact hcount), htest _ hcount]
      exact ⟨hcount, hin, howned⟩

/-! ### What a free frame may touch -/

/-- The frame reaches into a boot module or into an entry that is not usable. -/
def Foreign (info : BootInfo) (f : Nat) : Prop :=
  (∃ m ∈ info.modules, Touches f m.base m.size) ∨
    ∃ e ∈ info.e820, e.type ≠ e820Usable ∧ Touches f e.base e.length

/-- No free frame has a byte of the low 2 MiB, of the kernel image, of the bitmap or the reference
counts, of a boot module or of an entry that is not usable. -/
def FreeFramesSafe (k : KernelImage) (info : BootInfo) : Prop :=
  ∀ f, IsFree (memoryInit k info) f →
    ¬Touches f 0 0x200000 ∧ ¬Touches f k.start (k.stop - k.start) ∧
      ¬Touches f frameBitmap.1 frameBitmap.2 ∧ ¬Touches f frameRefcount.1 frameRefcount.2 ∧
      ¬Foreign info f

/-- Of the first 4 GiB, no frame that lies wholly in a usable range reaches into a module or an
entry that is not usable, unless it lies wholly in a module or in what the kernel reserves for
itself. -/
def WholeFramesApart (k : KernelImage) (info : BootInfo) : Prop :=
  ∀ f < maxTrackedFrames, Usable info f → Foreign info f → KernelOwned k f ∨ ModuleOwned info f

/-- For every memory map and every list of modules: the free frames are safe exactly if the frames
of usable memory that modules and other entries reach into are reserved as a whole. -/
theorem memoryInit_safe_iff (k : KernelImage) (info : BootInfo) :
    FreeFramesSafe k info ↔ WholeFramesApart k info := by
  have hlow : ∀ f, Touches f 0 0x200000 → KernelOwned k f := fun f h => .inl (h.inside rfl rfl)
  have hkernel : ∀ f, Touches f k.start (k.stop - k.start) → KernelOwned k f := by
    have halign := k.aligned
    refine fun f h => .inr (.inl (h.inside (by decide : 0x10000 % pageSize = 0) ?_))
    simp only [KernelImage.start, pageSize] at *
    omega
  have hrefs : ∀ f, Touches f frameRefcount.1 frameRefcount.2 → KernelOwned k f :=
    fun f h => .inr (.inr (h.inside rfl rfl))
  have hbitmap : ∀ f, Touches f frameBitmap.1 frameBitmap.2 → KernelOwned k f := by
    refine fun f h => .inl ?_
    have hin := h.inside rfl rfl
    simp only [Inside, frameBitmap, maxTrackedFrames, pageSize] at *
    omega
  constructor
  · intro hsafe f hf husable hforeign
    by_contra howned
    rw [not_or] at howned
    exact (hsafe f ((isFree_memoryInit k info f).mpr ⟨hf, husable, howned⟩)).2.2.2.2 hforeign
  · intro hapart f hfree
    obtain ⟨hf, husable, hkernelFree, hmoduleFree⟩ := (isFree_memoryInit k info f).mp hfree
    refine ⟨mt (hlow f) hkernelFree, mt (hkernel f) hkernelFree, mt (hbitmap f) hkernelFree,
      mt (hrefs f) hkernelFree, fun hforeign => ?_⟩
    rcases hapart f hf husable hforeign with howned | howned
    · exact hkernelFree howned
    · exact hmoduleFree howned

/-- A kernel image of 572 KiB. -/
def smallKernel : KernelImage := ⟨0x9f000, by decide, by decide, by decide⟩

/-- 64 MiB of usable memory and a module of one page that starts in the middle of a frame. -/
def unalignedModule : BootInfo where
  headerOk := true
  liveRamdisk := true
  e820Addr := 0x5000
  e820 := [⟨0, 0x4000000, e820Usable⟩]
  modulesAddr := 0x6000
  modules := [⟨0x1000800, 0x1000, true⟩]

/-- 64 MiB of usable memory and a reserved page in the middle of it. -/
def overlappingEntries : BootInfo where
  headerOk := true
  liveRamdisk := false
  e820Addr := 0x5000
  e820 := [⟨0, 0x4000000, e820Usable⟩, ⟨0x2000000, 0x1000, 2⟩]
  modulesAddr := 0
  modules := []

/-- Frame 0x1000 holds the first half of the module, frame 0x2000 is the reserved page, and both are
free. -/
theorem memoryInit_unsafe :
    (IsFree (memoryInit smallKernel unalignedModule) 0x1000 ∧ Touches 0x1000 0x1000800 0x1000 ∧
        ¬FreeFramesSafe smallKernel unalignedModule) ∧
      IsFree (memoryInit smallKernel overlappingEntries) 0x2000 ∧ Touches 0x2000 0x2000000 0x1000 ∧
        ¬FreeFramesSafe smallKernel overlappingEntries := by
  have hmodule : IsFree (memoryInit smallKernel unalignedModule) 0x1000 := by
    rw [isFree_memoryInit]
    simp [Usable, KernelOwned, ModuleOwned, unalignedModule, smallKernel, bootinfoValidate,
      rangeOk, Inside, e820Usable, frameRefcount, maxTrackedFrames, KernelImage.start, pageSize]
  have htouch : Touches 0x1000 0x1000800 0x1000 := by
    simp [Touches, pageSize]
  have hentry : IsFree (memoryInit smallKernel overlappingEntries) 0x2000 := by
    rw [isFree_memoryInit]
    simp [Usable, KernelOwned, ModuleOwned, overlappingEntries, smallKernel,
      bootinfoValidate, rangeOk,
      Inside, e820Usable, frameRefcount, maxTrackedFrames, KernelImage.start, pageSize]
  have htouch' : Touches 0x2000 0x2000000 0x1000 := by
    simp [Touches, pageSize]
  refine ⟨⟨hmodule, htouch, fun hsafe => ?_⟩, hentry, htouch', fun hsafe => ?_⟩
  · exact (hsafe _ hmodule).2.2.2.2 (.inl ⟨_, mem_singleton_self _, htouch⟩)
  · exact (hsafe _ hentry).2.2.2.2
      (.inr ⟨⟨0x2000000, 0x1000, 2⟩, by simp [overlappingEntries], by decide, htouch'⟩)

end Rabbitbone.Spec.Mm
